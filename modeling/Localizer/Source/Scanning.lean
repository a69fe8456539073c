import Localizer.Source.Token
/-!
# Scanning — tokens stand where they say

A scanner hands back the text after what it read, and a width in bytes.  `Token.scan` gives each token's offsets from
these widths.  Here every scanner is shown to split its text: what it read and what is left make up the whole, and the
width is the byte length of what it read (`Lexeme.scan_splits`).  Marks are what they spell, a quoted literal stands
between two quotes, and a word without escapes is its own text.  Between one token and the next stand blank space and
comments only (`Trivia`).
-/
namespace Localizer
namespace Source

open Text (byteLength byteLength_append Boundary)

/-! ## Widths -/

theorem utf8ByteSize_ofList : ∀ cs : List Char, (String.ofList cs).utf8ByteSize = byteLength cs
  | [] => rfl
  | c :: cs => by
    rw [show c :: cs = [c] ++ cs from rfl, String.ofList_append, String.utf8ByteSize_append, utf8ByteSize_ofList cs,
      byteLength_append]
    simp [byteLength]

theorem byteLength_pos : ∀ {cs : List Char}, cs ≠ [] → 0 < byteLength cs
  | [], h => absurd rfl h
  | c :: _, _ => Nat.lt_of_lt_of_le c.utf8Size_pos (Nat.le_add_right _ _)

/-- **Characters of one byte each**, as many as `n` says. -/
def Narrow (cs : List Char) (n : Nat) : Prop := byteLength (cs.take n) = n

theorem Narrow.zero (cs : List Char) : Narrow cs 0 := by simp [Narrow, byteLength]

theorem Narrow.cons {c : Char} {cs : List Char} {n : Nat} (hc : c.utf8Size = 1) (h : Narrow cs n) :
    Narrow (c :: cs) (n + 1) := by
  unfold Narrow at h ⊢
  rw [List.take_succ_cons, byteLength, h, hc, Nat.add_comm]

theorem Narrow.add {cs : List Char} {m n : Nat} (h : Narrow cs m) (h' : Narrow (cs.drop m) n) : Narrow cs (m + n) := by
  unfold Narrow at h h' ⊢
  rw [List.take_add, byteLength_append, h, h']

theorem byteLength_narrow : ∀ {cs : List Char}, (∀ c ∈ cs, c.utf8Size = 1) → byteLength cs = cs.length
  | [], _ => rfl
  | c :: cs, h => by
    rw [byteLength, List.length_cons, h c List.mem_cons_self,
      byteLength_narrow fun d hd => h d (List.mem_cons_of_mem _ hd), Nat.add_comm]

theorem take_length_takeWhile (p : Char → Bool) (cs : List Char) :
    cs.take (cs.takeWhile p).length = cs.takeWhile p := by
  conv => lhs; arg 2; rw [← List.takeWhile_append_dropWhile (p := p) (l := cs)]
  exact List.take_left

theorem Narrow.takeWhile {p : Char → Bool} (hp : ∀ c, p c = true → c.utf8Size = 1) (cs : List Char) :
    Narrow cs (cs.takeWhile p).length := by
  unfold Narrow
  rw [take_length_takeWhile, byteLength_narrow fun c hc => hp c (List.all_eq_true.1 List.all_takeWhile c hc)]

/-! ## Characters of one byte -/

theorem utf8Size_of_le {c : Char} (h : c.toNat ≤ 127) : c.utf8Size = 1 := by
  have : c.val ≤ 127 := by
    rw [UInt32.le_iff_toNat_le]
    exact h
  simp [Char.utf8Size, this]

theorem utf8Size_of_isDigit {c : Char} (h : c.isDigit = true) : c.utf8Size = 1 := by
  refine utf8Size_of_le ?_
  simp only [Char.isDigit, Bool.and_eq_true, decide_eq_true_eq, ge_iff_le, UInt32.le_iff_toNat_le] at h
  have h57 : c.toNat ≤ 57 := h.2
  omega

theorem utf8Size_of_isHex {c : Char} (h : isHex c = true) : c.utf8Size = 1 := by
  refine utf8Size_of_le ?_
  unfold isHex Text.hexValue? at h
  simp only at h
  split at h
  · simp_all; omega
  split at h
  · simp_all; omega
  split at h
  · simp_all; omega
  · cases h

theorem utf8Size_of_isOctal {c : Char} (h : isOctal c = true) : c.utf8Size = 1 := by
  refine utf8Size_of_le ?_
  simp only [isOctal, Bool.and_eq_true, decide_eq_true_eq] at h
  have h55 : c.toNat ≤ 55 := UInt32.le_iff_toNat_le.1 h.2
  omega

theorem narrow_digitRun {p : Char → Bool} (hp : ∀ c, p c = true → c.utf8Size = 1) (cs : List Char) :
    Narrow cs (digitRun p cs) := by
  refine Narrow.takeWhile (fun c hc => ?_) cs
  rcases Bool.or_eq_true_iff.1 hc with h | h
  · exact hp c h
  · rw [beq_iff_eq] at h
    subst h
    rfl

/-! ## Numbers -/

theorem narrow_exponentLength {cs : List Char} {n : Nat} (h : exponentLength cs = some n) : Narrow cs n := by
  unfold exponentLength at h
  split at h
  · rename_i c rest
    split at h
    · rename_i hc
      have hc1 : c.utf8Size = 1 := by
        rcases Bool.or_eq_true_iff.1 hc with h | h <;> (rw [beq_iff_eq] at h; subst h; rfl)
      have hsign : Narrow rest (if rest.head?.any (fun s => s == '+' || s == '-') then 1 else 0) := by
        split
        · rename_i hs
          cases rest with
          | nil => cases hs
          | cons d ds =>
            refine .cons ?_ (.zero ds)
            rcases (by simpa using hs : d = '+' ∨ d = '-') with rfl | rfl <;> rfl
        · exact .zero rest
      simp only at h
      generalize (if rest.head?.any (fun s => s == '+' || s == '-') then 1 else 0) = signs at h hsign
      split at h
      · obtain rfl := Option.some.inj h
        rw [Nat.add_assoc, Nat.add_comm]
        exact .cons hc1 (hsign.add (narrow_digitRun (fun _ => utf8Size_of_isDigit) _))
      · cases h
    · obtain rfl := Option.some.inj h
      exact .zero _
  · obtain rfl := Option.some.inj h
    exact .zero _

theorem narrow_fractionLength {cs : List Char} {n : Nat} (h : fractionLength cs = some n) : Narrow cs n := by
  unfold fractionLength at h
  split at h
  · rename_i rest
    obtain ⟨m, hm, rfl⟩ := Option.map_eq_some_iff.1 h
    rw [Nat.add_assoc, Nat.add_comm]
    exact .cons rfl ((narrow_digitRun (fun _ => utf8Size_of_isDigit) rest).add (narrow_exponentLength hm))
  · exact narrow_exponentLength h

theorem Narrow.marked {cs : List Char} {n : Nat} (h : Narrow cs n) (hn : (cs.drop n).head? = some 'n') :
    Narrow cs (n + 1) := by
  refine h.add ?_
  cases hd : cs.drop n with
  | nil => rw [hd] at hn; cases hn
  | cons c ds =>
    rw [hd] at hn
    obtain rfl := Option.some.inj hn
    exact .cons rfl (.zero ds)

theorem narrow_basedLength {p : Char → Bool} (hp : ∀ c, p c = true → c.utf8Size = 1) {cs : List Char} {n : Nat}
    (h : basedLength p cs = some n) : Narrow cs n := by
  unfold basedLength at h
  split at h
  · simp only at h
    split at h
    · rename_i hn
      obtain rfl := Option.some.inj h
      exact (narrow_digitRun hp cs).marked (by simpa using hn)
    · obtain rfl := Option.some.inj h
      exact narrow_digitRun hp cs
  · cases h

theorem narrow_digitsLength {cs : List Char} {n : Nat} (h : digitsLength cs = some n) : Narrow cs n := by
  unfold digitsLength at h
  split at h
  · rename_i c rest
    -- after `0`: a marked base, more digits, a big integer or a fraction
    have hbase : ∀ {p : Char → Bool} {m : Nat}, (∀ c, p c = true → c.utf8Size = 1) → c.utf8Size = 1 →
        (basedLength p rest).map (2 + ·) = some m → Narrow ('0' :: c :: rest) m := by
      intro p m hp hc hm
      obtain ⟨k, hk, rfl⟩ := Option.map_eq_some_iff.1 hm
      rw [Nat.add_comm]
      exact .cons rfl (.cons hc (narrow_basedLength hp hk))
    have hsize : ∀ {a b : Char}, (c == a || c == b) = true → a.utf8Size = 1 → b.utf8Size = 1 → c.utf8Size = 1 := by
      intro a b hc ha hb
      rcases Bool.or_eq_true_iff.1 hc with h | h <;> (rw [beq_iff_eq] at h; subst h; assumption)
    split at h
    · rename_i hc
      exact hbase (fun _ => utf8Size_of_isHex) (hsize hc rfl rfl) h
    split at h
    · rename_i hc
      exact hbase (fun _ => utf8Size_of_isOctal) (hsize hc rfl rfl) h
    split at h
    · rename_i hc
      refine hbase (fun d hd => ?_) (hsize hc rfl rfl) h
      rcases Bool.or_eq_true_iff.1 hd with h | h <;> (rw [beq_iff_eq] at h; subst h; rfl)
    split at h
    · have hdigits : Narrow (c :: rest) ((c :: rest).takeWhile Char.isDigit).length :=
        .takeWhile (fun _ => utf8Size_of_isDigit) _
      simp only at h
      split at h
      · obtain rfl := Option.some.inj h
        rw [Nat.add_comm]
        exact .cons rfl hdigits
      · obtain ⟨m, hm, rfl⟩ := Option.map_eq_some_iff.1 h
        rw [Nat.add_assoc, Nat.add_comm]
        exact .cons rfl (hdigits.add (narrow_fractionLength hm))
    split at h
    · rename_i hc
      rw [beq_iff_eq] at hc
      subst hc
      obtain rfl := Option.some.inj h
      exact .cons rfl (.cons rfl (.zero rest))
    · obtain ⟨m, hm, rfl⟩ := Option.map_eq_some_iff.1 h
      rw [Nat.add_comm]
      exact .cons rfl (narrow_fractionLength hm)
  · have hdigits := narrow_digitRun (fun _ => utf8Size_of_isDigit) cs
    simp only at h
    split at h
    · rename_i hn
      obtain rfl := Option.some.inj h
      exact hdigits.marked (by simpa using hn)
    · obtain ⟨m, hm, rfl⟩ := Option.map_eq_some_iff.1 h
      exact hdigits.add (narrow_fractionLength hm)

theorem narrow_numberLength {cs : List Char} {n : Nat} (h : numberLength cs = some n) : Narrow cs n := by
  unfold numberLength at h
  obtain ⟨m, hm, h⟩ := Option.bind_eq_some_iff.1 h
  split at h
  · cases h
  · obtain rfl := Option.some.inj h
    exact narrow_digitsLength hm

/-! ## Literals and names -/

theorem scanQuoted_split (quote : Char) (cs : List Char) : ∀ {raw after : List Char},
    scanQuoted quote cs = some (raw, after) → cs = raw ++ quote :: after := by
  fun_induction scanQuoted quote cs with
  | case1 => intro _ _ h; cases h
  | case2 cs ih =>
    intro raw after h
    obtain ⟨⟨r, a⟩, hr, hp⟩ := Option.map_eq_some_iff.1 h
    cases hp
    rw [ih hr]
    rfl
  | case3 c cs _ ih =>
    intro raw after h
    obtain ⟨⟨r, a⟩, hr, hp⟩ := Option.map_eq_some_iff.1 h
    cases hp
    rw [ih hr]
    rfl
  | case4 c cs _ _ hc =>
    intro raw after h
    rw [beq_iff_eq] at hc
    cases h
    rw [hc]
    rfl
  | case5 => intro _ _ h; cases h
  | case6 c cs _ _ _ _ ih =>
    intro raw after h
    obtain ⟨⟨r, a⟩, hr, hp⟩ := Option.map_eq_some_iff.1 h
    cases hp
    rw [ih hr]
    rfl

theorem unicodeEscape?_split {cs after : List Char} {code : Nat} (h : unicodeEscape? cs = some (code, after)) :
    ∃ read, cs = read ++ after := by
  unfold unicodeEscape? at h
  split at h
  · rename_i rest
    simp only at h
    split at h
    · rename_i after' hd
      split at h
      · cases h
      · obtain ⟨m, -, hp⟩ := Option.map_eq_some_iff.1 h
        cases hp
        refine ⟨'{' :: (rest.takeWhile isHex ++ ['}']), ?_⟩
        rw [List.cons_append, List.append_assoc, List.singleton_append, ← hd, List.takeWhile_append_dropWhile]
    · cases h
  · rename_i a b c d rest _
    obtain ⟨m, -, hp⟩ := Option.map_eq_some_iff.1 h
    cases hp
    exact ⟨[a, b, c, d], rfl⟩
  · cases h

/-- **A name's tail is a front of the text**, and its own characters if none was escaped. -/
theorem scanNameTail_split : ∀ (fuel : Nat) (cs : List Char) {name rest : List Char} {escaped : Bool},
    scanNameTail fuel cs = some (name, escaped, rest) →
      ∃ read, cs = read ++ rest ∧ (escaped = false → read = name) ∧ (read = [] → name = [])
  | 0, _, _, _, _, h => by cases h
  | fuel + 1, cs, name, rest, escaped, h => by
    unfold scanNameTail at h
    simp only at h
    have hcs := List.takeWhile_append_dropWhile (p := isNamePart) (l := cs)
    split at h
    · rename_i more hd
      obtain ⟨⟨code, after⟩, hesc, h⟩ := Option.bind_eq_some_iff.1 h
      split at h
      · obtain ⟨⟨tail, b, rest'⟩, htail, h⟩ := Option.bind_eq_some_iff.1 h
        cases h
        obtain ⟨r, rfl⟩ := unicodeEscape?_split hesc
        obtain ⟨r', rfl, -⟩ := scanNameTail_split fuel after htail
        refine ⟨cs.takeWhile isNamePart ++ '\\' :: 'u' :: (r ++ r'), ?_, (nomatch ·), fun h => by simp at h⟩
        rw [hd] at hcs
        refine hcs.symm.trans ?_
        simp
      · cases h
    · cases h
    · cases h
      exact ⟨cs.takeWhile isNamePart, hcs.symm, fun _ => rfl, id⟩

theorem scanName_split {cs rest : List Char} {name : String} {escaped : Bool}
    (h : scanName cs = some (name, escaped, rest)) :
    ∃ read, cs = read ++ rest ∧ read ≠ [] ∧ nameWidth name escaped cs rest = byteLength read := by
  unfold scanName at h
  obtain ⟨⟨chars, esc, rest'⟩, htail, h⟩ := Option.bind_eq_some_iff.1 h
  simp only at h
  split at h
  · rename_i hstart
    cases h
    obtain ⟨read, rfl, hname, hnil⟩ := scanNameTail_split _ _ htail
    refine ⟨read, rfl, fun h => by simp [hnil h] at hstart, ?_⟩
    unfold nameWidth
    split
    · rw [List.length_append, Nat.add_sub_cancel, List.take_left]
    · rename_i he
      rw [utf8ByteSize_ofList, hname (by simpa using he)]
  · cases h

/-! ## Marks -/

theorem byteLength_mark : ∀ m ∈ marks, byteLength m.toList = m.length ∧ 0 < m.length := by decide

theorem scanMark_split {cs after : List Char} {m : String} (h : scanMark cs = some (m, after)) :
    cs = m.toList ++ after ∧ byteLength m.toList = m.length ∧ 0 < m.length := by
  unfold scanMark at h
  obtain ⟨found, hfind, h⟩ := Option.map_eq_some_iff.1 h
  have hmem := List.mem_of_find?_eq_some hfind
  have hfront := List.find?_some hfind
  obtain ⟨more, rfl⟩ := List.isPrefixOf_iff_prefix.1 hfront
  split at h
  · rename_i hc
    obtain rfl : found = "?." := by simpa using (Bool.and_eq_true_iff.1 hc).1
    cases h
    exact ⟨rfl, by decide, by decide⟩
  · cases h
    refine ⟨?_, byteLength_mark m hmem⟩
    rw [← String.length_toList, List.drop_left]

/-! ## Gaps and tokens -/

/-- **Blank space and comments.**  A comment in a line reaches over the line break. -/
inductive Trivia : List Char → Prop
  | nil : Trivia []
  | blank {c : Char} {cs : List Char} : isBreak c = true ∨ isBlank c = true → Trivia cs → Trivia (c :: cs)
  | line {opener body : List Char} {c : Char} {cs : List Char} :
      opener ∈ ["//".toList, "<!--".toList, "-->".toList] → (∀ d ∈ body, isBreak d = false) → isBreak c = true →
        Trivia cs → Trivia (opener ++ (body ++ c :: cs))
  | block {body cs : List Char} : ¬ ['*', '/'] <:+: body → Trivia cs →
      Trivia ('/' :: '*' :: (body ++ '*' :: '/' :: cs))

def TriviaMode.Passes : TriviaMode → List Char → Prop
  | .between, cs => Trivia cs
  | .line, cs => ∃ body c rest, cs = body ++ c :: rest ∧ (∀ d ∈ body, isBreak d = false) ∧ isBreak c = true ∧ Trivia rest
  | .block, cs => ∃ body rest, cs = body ++ '*' :: '/' :: rest ∧ ¬ ['*', '/'] <:+: body ∧ Trivia rest

theorem TriviaMode.Passes.opened {opener cs : List Char} (h : TriviaMode.line.Passes cs)
    (hopener : opener ∈ ["//".toList, "<!--".toList, "-->".toList]) : Trivia (opener ++ cs) := by
  obtain ⟨body, c, rest, rfl, hbody, hc, hrest⟩ := h
  exact .line hopener hbody hc hrest

theorem TriviaMode.Passes.within_line {c : Char} {cs : List Char} (hc : isBreak c = false)
    (h : TriviaMode.line.Passes cs) : TriviaMode.line.Passes (c :: cs) := by
  obtain ⟨body, d, rest, rfl, hbody, hd, hrest⟩ := h
  exact ⟨c :: body, d, rest, rfl, List.forall_mem_cons.2 ⟨hc, hbody⟩, hd, hrest⟩

theorem TriviaMode.Passes.within_block {c : Char} {cs : List Char} (hc : ∀ rest, c = '*' → cs ≠ '/' :: rest)
    (h : TriviaMode.block.Passes cs) : TriviaMode.block.Passes (c :: cs) := by
  obtain ⟨body, rest, rfl, hbody, hrest⟩ := h
  refine ⟨c :: body, rest, rfl, fun hin => ?_, hrest⟩
  rcases List.infix_cons_iff.1 hin with hfront | hin
  · obtain ⟨rfl, tail, rfl⟩ := List.cons_prefix_cons.1 hfront
    exact hc _ rfl rfl
  · exact hbody hin

theorem skipGap_split (mode : TriviaMode) (saw : Bool) (offset : Nat) (cs : List Char) : ∀ {gap : Gap},
    skipGap mode saw offset cs = some gap → ∃ skipped, cs = skipped ++ gap.text ∧
      gap.offset = offset + byteLength skipped ∧ (gap.text ≠ [] → mode.Passes skipped) := by
  -- each turn of the walk passes the same few characters by which it moves the offset
  have grow : ∀ (front : List Char) {cs : List Char} {offset width : Nat} {gap : Gap} {mode mode' : TriviaMode},
      byteLength front = width → (∃ skipped, cs = skipped ++ gap.text ∧
        gap.offset = offset + width + byteLength skipped ∧ (gap.text ≠ [] → mode'.Passes skipped)) →
      (∀ skipped, cs = skipped ++ gap.text → mode'.Passes skipped → mode.Passes (front ++ skipped)) →
        ∃ skipped, front ++ cs = skipped ++ gap.text ∧ gap.offset = offset + byteLength skipped ∧
          (gap.text ≠ [] → mode.Passes skipped) := by
    rintro front cs offset _ gap mode mode' rfl ⟨skipped, rfl, ho, hskipped⟩ hpass
    exact ⟨front ++ skipped, by rw [List.append_assoc], by rw [ho, byteLength_append, Nat.add_assoc],
      fun hne => hpass skipped rfl (hskipped hne)⟩
  have stay : ∀ {offset : Nat} {cs : List Char} {saw : Bool} {gap : Gap}, some (⟨saw, offset, cs⟩ : Gap) = some gap →
      ∃ skipped, cs = skipped ++ gap.text ∧ gap.offset = offset + byteLength skipped ∧
        (gap.text ≠ [] → TriviaMode.between.Passes skipped) := by
    intro offset cs saw gap h
    cases h
    exact ⟨[], rfl, rfl, fun _ => .nil⟩
  fun_induction skipGap mode saw offset cs with
  | case1 saw offset cs ih => intro gap h; exact grow ['/', '/'] rfl (ih h) fun _ _ hs => hs.opened (by simp)
  | case2 saw offset cs ih =>
    intro gap h
    refine grow ['/', '*'] rfl (ih h) ?_
    rintro _ - ⟨body, rest, rfl, hbody, hrest⟩
    exact .block hbody hrest
  | case3 saw offset cs ih => intro gap h; exact grow ['<', '!', '-', '-'] rfl (ih h) fun _ _ hs => hs.opened (by simp)
  | case4 offset cs ih => intro gap h; exact grow ['-', '-', '>'] rfl (ih h) fun _ _ hs => hs.opened (by simp)
  | case5 saw offset cs _ => intro gap h; exact stay h
  | case6 saw offset cs ih =>
    intro gap h; exact grow ['*', '/'] rfl (ih h) fun skipped _ hs => ⟨[], skipped, rfl, by simp, hs⟩
  | case7 saw offset c cs _ _ _ _ hc ih => intro gap h; exact grow [c] rfl (ih h) fun _ _ hs => .blank (.inl hc) hs
  | case8 saw offset c cs _ _ _ _ _ hc ih => intro gap h; exact grow [c] rfl (ih h) fun _ _ hs => .blank (.inr hc) hs
  | case9 saw offset c cs _ _ _ _ _ _ => intro gap h; exact stay h
  | case10 saw offset c cs hc ih =>
    intro gap h; exact grow [c] rfl (ih h) fun skipped _ hs => ⟨[], c, skipped, rfl, by simp, hc, hs⟩
  | case11 saw offset c cs hc ih =>
    intro gap h; exact grow [c] rfl (ih h) fun _ _ hs => hs.within_line (by simpa using hc)
  | case12 saw offset c cs hc ih =>
    intro gap h
    refine grow [c] rfl (ih h) fun skipped hcs hs => hs.within_block fun rest hstar hslash => ?_
    obtain rfl : skipped = '/' :: rest := hslash
    exact hc _ hstar hcs
  | case13 => intro gap h; cases h
  | case14 mode saw offset _ =>
    intro gap h
    cases h
    exact ⟨[], rfl, rfl, fun hne => absurd rfl hne⟩

/-- **How a token of a kind is spelled.** -/
def Spelled : TokenKind → List Char → Prop
  | .mark m, read => read = m.toList ∧ read ≠ []
  | .word _ _, read => read ≠ []
  | .quoted value, read => ∃ quote raw, (quote = '"' ∨ quote = '\'') ∧ read = quote :: (raw ++ [quote]) ∧
      value = Cooked.ofRaw raw
  | _, _ => True

/-- **A token read from a text**: nothing valid, or a front of the text, as wide as it says and spelled as its kind
is. -/
def Lexeme.Splits (l : Lexeme) (cs : List Char) : Prop :=
  l = .invalid ∨ ∃ read, cs = read ++ l.rest ∧ byteLength read = l.width ∧ Spelled l.kind read

theorem Lexeme.scan_splits (cs : List Char) : (Lexeme.scan cs).Splits cs := by
  unfold Lexeme.scan
  split
  · exact .inr ⟨[], rfl, rfl, trivial⟩
  rename_i c rest
  split
  · split
    · rename_i name escaped after hscan
      obtain ⟨read, hread, hne, hwidth⟩ := scanName_split hscan
      exact .inr ⟨read, hread, hwidth.symm, hne⟩
    · exact .inl rfl
  split
  · split
    · rename_i n hn
      exact .inr ⟨(c :: rest).take n, (List.take_append_drop n _).symm, narrow_numberLength hn, trivial⟩
    · exact .inl rfl
  split
  · rename_i hquote
    split
    · rename_i raw after hscan
      split
      · exact .inl rfl
      · have hone : c.utf8Size = 1 := by
          rcases Bool.or_eq_true_iff.1 hquote with h | h <;> (rw [beq_iff_eq] at h; subst h; rfl)
        refine .inr ⟨c :: (raw ++ [c]), ?_, ?_, c, raw, by simpa using hquote, rfl, rfl⟩
        · rw [scanQuoted_split c rest hscan]
          simp
        · simp only [byteLength, byteLength_append, hone]
          omega
    · exact .inl rfl
  split
  · rename_i hc
    rw [beq_iff_eq] at hc
    subst hc
    split
    · rename_i name escaped after hscan
      obtain ⟨read, rfl, -, hwidth⟩ := scanName_split hscan
      refine .inr ⟨'#' :: read, rfl, ?_, trivial⟩
      rw [hwidth, byteLength, Nat.add_comm]
      rfl
    · exact .inl rfl
  · split
    · rename_i m after hscan
      obtain ⟨hcs, hwidth, hpos⟩ := scanMark_split hscan
      exact .inr ⟨m.toList, hcs, hwidth, rfl, List.ne_nil_of_length_pos (by rwa [String.length_toList])⟩
    · exact .inl rfl

/-! ## Where texts stand in the whole -/

/-- **A text stands at an offset of the whole**: it is the rest of the whole from there on, or nothing is left of it. -/
def Stands (whole : List Char) (offset : Nat) (text : List Char) : Prop :=
  ∃ front back, whole = front ++ back ∧ byteLength front = offset ∧ (text = back ∨ text = [])

theorem Stands.boundary {whole text : List Char} {offset : Nat} (h : Stands whole offset text) :
    Boundary whole offset := by
  obtain ⟨front, back, hwhole, hoffset, -⟩ := h
  exact ⟨front, back, hwhole, hoffset⟩

theorem Stands.of_ne_nil {whole text : List Char} {offset : Nat} (h : Stands whole offset text) (hne : text ≠ []) :
    ∃ front, whole = front ++ text ∧ byteLength front = offset := by
  obtain ⟨front, back, hwhole, hoffset, rfl | hnil⟩ := h
  · exact ⟨front, hwhole, hoffset⟩
  · exact absurd hnil hne

theorem Stands.nothing {whole text : List Char} {offset : Nat} (h : Stands whole offset text) :
    Stands whole offset [] := by
  obtain ⟨front, back, hwhole, hoffset, -⟩ := h
  exact ⟨front, back, hwhole, hoffset, .inr rfl⟩

theorem Stands.after {whole text more : List Char} {offset : Nat} (h : Stands whole offset (text ++ more)) :
    Stands whole (offset + byteLength text) more := by
  obtain ⟨front, back, rfl, rfl, rfl | hnil⟩ := h
  · exact ⟨front ++ text, more, by rw [List.append_assoc], byteLength_append .., .inl rfl⟩
  · obtain ⟨rfl, rfl⟩ := List.append_eq_nil_iff.1 hnil
    exact ⟨front, back, rfl, rfl, .inr rfl⟩

structure Token.Placed (whole : List Char) (start : Nat) (t : Scanned) : Prop where
  start_le : start ≤ t.token.span.lo
  lo_le_hi : t.token.span.lo ≤ t.token.span.hi
  source : Stands whole t.token.span.lo t.source
  rest : Stands whole t.token.span.hi t.rest
  spelled : t.token.kind ≠ .invalid → ∃ read, t.source = read ++ t.rest ∧
    t.token.span.hi = t.token.span.lo + byteLength read ∧ Spelled t.token.kind read
  behind : t.source ≠ [] → ∃ front gap, whole = front ++ (gap ++ t.source) ∧ byteLength front = start ∧
    t.token.span.lo = start + byteLength gap ∧ Trivia gap

theorem Token.scan_placed {whole cs : List Char} {offset : Nat} (saw : Bool) (h : Stands whole offset cs) :
    Token.Placed whole offset (Token.scan saw offset cs) := by
  unfold Token.scan
  split
  · exact ⟨Nat.le_refl _, Nat.le_refl _, h.nothing, h.nothing, fun hk => absurd rfl hk, fun hne => absurd rfl hne⟩
  · rename_i gap hgap
    obtain ⟨skipped, rfl, hoffset, hskipped⟩ := skipGap_split _ _ _ _ hgap
    have hbehind : gap.text ≠ [] → ∃ front between, whole = front ++ (between ++ gap.text) ∧ byteLength front = offset ∧
        gap.offset = offset + byteLength between ∧ Trivia between := by
      intro hne
      obtain ⟨front, hwhole, hfront⟩ := h.of_ne_nil fun hnil => hne (List.append_eq_nil_iff.1 hnil).2
      exact ⟨front, skipped, hwhole, hfront, hoffset, hskipped hne⟩
    have hsource : Stands whole gap.offset gap.text := by
      rw [hoffset]
      exact h.after
    have hle : offset ≤ gap.offset := by omega
    rcases Lexeme.scan_splits gap.text with hinv | ⟨read, htext, hwidth, hspell⟩
    · rw [hinv]
      exact ⟨hle, Nat.le_refl _, hsource, hsource.nothing, fun hk => absurd rfl hk, hbehind⟩
    · refine ⟨hle, Nat.le_add_right _ _, hsource, ?_, fun _ => ⟨read, htext, by rw [hwidth], hspell⟩, hbehind⟩
      have hrest := hsource
      rw [htext] at hrest
      dsimp only
      rw [← hwidth]
      exact hrest.after

end Source
end Localizer
