import Mathlib.Algebra.Ring.Nat
import Mathlib.Data.List.Destutter
import Localizer.SourceMap.Decode
import Localizer.SourceMap.Encode
import Localizer.Proofs.Pieces
/-!
# MapText — mappings in writing and what is read from them

A difference is read back whatever follows it (`Vlq.decode_encode_append`), so a segment gives the mapping it was written
for.  `readOn` is the reader in the middle of a line: a line break takes it to the next line, a comma changes nothing, a
segment adds a mapping.  Over the whole text it gives all mappings except those that repeat the one before
(`SourceMap.readOn_mappingsText`).
-/
namespace Localizer
namespace Vlq

/-- **The number that a sum of digits stands for**: its first bit is the sign. -/
def signed (total : Nat) : Int := if total % 2 = 1 then -((total / 2 : Nat) : Int) else ((total / 2 : Nat) : Int)

theorem signed_eq (total : Nat) :
    (if (total : Int) % 2 == 1 then -((total : Int) / 2) else (total : Int) / 2) = signed total := by
  unfold signed
  simp only [beq_iff_eq]
  split <;> split <;> omega

theorem decodeFrom_digit {d : Nat} (hd : d < 64) {sum shift : Nat} (hshift : shift < 64)
    (hfits : sum + d % 32 * 2 ^ shift < 2 ^ 63) (cs : List Char) :
    decodeFrom sum shift (digit d :: cs) =
      if d < 32 then (decodeFrom 0 0 cs).map (signed (sum + d % 32 * 2 ^ shift) :: ·)
      else decodeFrom (sum + d % 32 * 2 ^ shift : Nat) (shift + 5) cs := by
  have hcast : (sum : Int) + ((d % 32) <<< shift : Nat) = ((sum + d % 32 * 2 ^ shift : Nat) : Int) := by
    rw [Nat.shiftLeft_eq, Int.natCast_add]
  have hmod : Int.bmod ((sum + d % 32 * 2 ^ shift : Nat) : Int) (1 <<< 64) = ((sum + d % 32 * 2 ^ shift : Nat) : Int) :=
    Int.bmod_eq_of_le (by omega) (by omega)
  rw [decodeFrom, value?_digit d hd]
  simp only [Nat.not_le.2 hshift, if_false, hcast, hmod, signed_eq]

theorem decodeFrom_digits (n : Nat) {sum shift : Nat} (hshift : shift < 64) (hfits : sum + n * 2 ^ shift < 2 ^ 63)
    (cs : List Char) :
    decodeFrom sum shift (digits n ++ cs) = (decodeFrom 0 0 cs).map (signed (sum + n * 2 ^ shift) :: ·) := by
  fun_induction digits n generalizing sum shift with
  | case1 n hn =>
    rw [List.singleton_append, decodeFrom_digit (by omega) hshift (by rwa [Nat.mod_eq_of_lt hn]), if_pos hn,
      Nat.mod_eq_of_lt hn]
  | case2 n hn ih =>
    have hsum : sum + n % 32 * 2 ^ shift + n / 32 * 2 ^ (shift + 5) = sum + n * 2 ^ shift := by
      have hpow : 2 ^ (shift + 5) = 32 * 2 ^ shift := by rw [Nat.pow_add, Nat.mul_comm]
      rw [hpow, ← Nat.mul_assoc, Nat.add_assoc, ← Nat.add_mul, Nat.mul_comm (n / 32), Nat.mod_add_div]
    have hsmall : shift + 5 < 64 := by
      have : 2 ^ (shift + 5) < 2 ^ 63 := by
        have hpow : 2 ^ (shift + 5) = 32 * 2 ^ shift := by rw [Nat.pow_add, Nat.mul_comm]
        have : 32 * 2 ^ shift ≤ n * 2 ^ shift := Nat.mul_le_mul_right _ (by omega)
        omega
      have := (Nat.pow_lt_pow_iff_right (a := 2) (by omega)).1 this
      omega
    have hmod : (n % 32 + 32) % 32 = n % 32 := by omega
    rw [List.cons_append, decodeFrom_digit (by omega) hshift (by rw [hmod]; omega), if_neg (by omega), hmod,
      ih hsmall (by rw [hsum]; exact hfits), hsum]

/-- **A written number is read back**, whatever follows it. -/
theorem decode_encode_append {n : Int} (hn : n.natAbs < 2 ^ 61) (cs : List Char) :
    decode (encode n ++ cs) = (decode cs).map (n :: ·) := by
  have hread {total : Nat} (htotal : total < 2 ^ 63) :
      decodeFrom 0 0 (digits total ++ cs) = (decodeFrom 0 0 cs).map (signed total :: ·) := by
    have h := decodeFrom_digits total (show 0 < 64 by decide)
      (show 0 + total * 2 ^ 0 < 2 ^ 63 by rwa [Nat.zero_add, Nat.pow_zero, Nat.mul_one]) cs
    rwa [Nat.zero_add, Nat.pow_zero, Nat.mul_one] at h
  unfold decode encode
  by_cases hneg : n < 0
  · have hsigned : signed (2 * n.natAbs + 1) = n := by
      rw [signed, if_pos (by omega), show (2 * n.natAbs + 1) / 2 = n.natAbs by omega]
      omega
    rw [if_pos hneg, hread (by omega), hsigned]
  · have hsigned : signed (2 * n.natAbs) = n := by
      rw [signed, if_neg (by omega), show 2 * n.natAbs / 2 = n.natAbs by omega]
      omega
    rw [if_neg hneg, hread (by omega), hsigned]

theorem digits_plain (n : Nat) : ∀ c ∈ digits n, c ≠ ';' ∧ c ≠ ',' := by
  have hdigit : ∀ d < 64, digit d ≠ ';' ∧ digit d ≠ ',' := by decide
  fun_induction digits n with
  | case1 n hn =>
    intro c hc
    rw [List.mem_singleton.1 hc]
    exact hdigit n (by omega)
  | case2 n hn ih =>
    intro c hc
    rcases List.mem_cons.1 hc with rfl | hc
    · exact hdigit _ (by omega)
    · exact ih c hc

theorem digits_ne_nil (n : Nat) : digits n ≠ [] := by
  rw [digits]
  split <;> exact List.cons_ne_nil _ _

/-- **Numbers one after another.** -/
def encodeAll (ns : List Int) : List Char := ns.flatMap encode

theorem decode_encodeAll {ns : List Int} (hns : ∀ n ∈ ns, n.natAbs < 2 ^ 61) : decode (encodeAll ns) = some ns := by
  induction ns with
  | nil => rfl
  | cons n ns ih =>
    rw [encodeAll, List.flatMap_cons, decode_encode_append (hns n (List.mem_cons_self ..)), ← encodeAll,
      ih fun m hm => hns m (List.mem_cons_of_mem _ hm), Option.map_some]

theorem encodeAll_plain (ns : List Int) : ∀ c ∈ encodeAll ns, c ≠ ';' ∧ c ≠ ',' := by
  intro c hc
  obtain ⟨n, -, hn⟩ := List.mem_flatMap.1 hc
  exact digits_plain _ c hn

theorem encodeAll_ne_nil (n : Int) (ns : List Int) : encodeAll (n :: ns) ≠ [] := by
  rw [encodeAll, List.flatMap_cons]
  exact List.append_ne_nil_of_left_ne_nil (digits_ne_nil _) _

end Vlq

namespace SourceMap

/-! ## The numbers of a segment -/

/-- **A number of a map.** -/
theorem advanced_difference {now : Nat} (hnow : now < mapLimit) (before : Nat) :
    advanced before ((now : Int) - (before : Int)) = now := by
  unfold advanced
  rw [show (before : Int) + ((now : Int) - (before : Int)) = (now : Int) by omega,
    Int.emod_eq_of_lt (by omega) (by exact_mod_cast hnow), Int.toNat_natCast]

/-- **The differences that a mapping is written with.** -/
def differences (sources names : Numbering) (w : Written) (m : Mapping) : List Int :=
  ((m.column : Int) - w.column) ::
    match m.origin with
    | none => []
    | some o =>
      ((sources.number o.source : Int) - w.source) :: ((o.line : Int) - w.originLine) ::
        ((o.column : Int) - w.originColumn) ::
        match o.name with
        | none => []
        | some n => [(names.number n : Int) - w.name]

theorem segmentText_eq (sources names : Numbering) (w : Written) (m : Mapping) :
    (segmentText sources names w m).1 = Vlq.encodeAll (differences sources names w m) := by
  unfold segmentText differences difference
  cases m.origin with
  | none => simp [Vlq.encodeAll]
  | some o =>
    cases ho : o.name with
    | none => simp [Vlq.encodeAll, ho]
    | some n => simp [Vlq.encodeAll, ho]

/-- **A mapping that can be written**: its texts have numbers, and all its numbers are those of a map. -/
structure Fits (sources names : Numbering) (m : Mapping) : Prop where
  column : m.column < mapLimit
  origin : ∀ o ∈ m.origin, o.source ∈ sources ∧ sources.number o.source < mapLimit ∧ o.line < mapLimit ∧
    o.column < mapLimit ∧ ∀ n ∈ o.name, n ∈ names ∧ names.number n < mapLimit

/-- **Numbers of a map, all of them.** -/
structure Written.Small (w : Written) : Prop where
  column : w.column < mapLimit
  source : w.source < mapLimit
  originLine : w.originLine < mapLimit
  originColumn : w.originColumn < mapLimit
  name : w.name < mapLimit

/-- **What a reader keeps of the numbers that have been written.** -/
def Written.running (w : Written) : Running := ⟨w.source, w.originLine, w.originColumn, w.name⟩

theorem Numbering.getElem?_number {table : Numbering} {text : String} (h : text ∈ table) :
    table[table.number text]? = some text := by
  have hlt : table.number text < table.length := List.idxOf_lt_length_of_mem h
  rw [List.getElem?_eq_getElem hlt]
  exact congrArg some (List.getElem_idxOf hlt)

theorem segment_differences {sources names : Numbering} {m : Mapping} (hm : Fits sources names m) (w : Written) :
    segment sources names m.line w.column w.running (differences sources names w m) =
      some (m, (segmentText sources names w m).2.running) := by
  obtain ⟨line, column, origin⟩ := m
  unfold differences segmentText Written.running
  cases origin with
  | none => simp [segment, advanced_difference hm.column]
  | some o =>
    obtain ⟨hmem, hsource, hline, hcolumn, hname⟩ := hm.origin o rfl
    obtain ⟨source, oline, ocolumn, name⟩ := o
    cases name with
    | none =>
      simp [segment, advanced_difference hm.column, advanced_difference hsource, advanced_difference hline,
        advanced_difference hcolumn, Numbering.getElem?_number hmem]
    | some n =>
      obtain ⟨hnmem, hnumber⟩ := hname n rfl
      simp [segment, advanced_difference hm.column, advanced_difference hsource, advanced_difference hline,
        advanced_difference hcolumn, advanced_difference hnumber, Numbering.getElem?_number hmem,
        Numbering.getElem?_number hnmem]

theorem segmentText_next {sources names : Numbering} {m : Mapping} (hm : Fits sources names m) {w : Written}
    (hw : w.Small) :
    (segmentText sources names w m).2.Small ∧ (segmentText sources names w m).2.line = m.line ∧
      (segmentText sources names w m).2.column = m.column := by
  unfold segmentText
  cases ho : m.origin with
  | none => exact ⟨⟨hm.column, hw.source, hw.originLine, hw.originColumn, hw.name⟩, rfl, rfl⟩
  | some o =>
    obtain ⟨-, hsource, hline, hcolumn, hname⟩ := hm.origin o ho
    cases hn : o.name with
    | none =>
      simp only [hn]
      exact ⟨⟨hm.column, hsource, hline, hcolumn, hw.name⟩, trivial, trivial⟩
    | some n =>
      simp only [hn]
      exact ⟨⟨hm.column, hsource, hline, hcolumn, (hname n hn).2⟩, trivial, trivial⟩

theorem decode_segmentText {sources names : Numbering} {m : Mapping} (hm : Fits sources names m) {w : Written}
    (hw : w.Small) :
    Vlq.decode (segmentText sources names w m).1 = some (differences sources names w m) := by
  have hsmall {a b : Nat} (ha : a < mapLimit) (hb : b < mapLimit) : ((a : Int) - (b : Int)).natAbs < 2 ^ 61 := by
    have : mapLimit = 2 ^ 32 := rfl
    omega
  rw [segmentText_eq]
  refine Vlq.decode_encodeAll fun d hd => ?_
  unfold differences at hd
  rcases List.mem_cons.1 hd with rfl | hd
  · exact hsmall hm.column hw.column
  cases ho : m.origin with
  | none => simp [ho] at hd
  | some o =>
    obtain ⟨-, hsource, hline, hcolumn, hname⟩ := hm.origin o ho
    rw [ho] at hd
    rcases List.mem_cons.1 hd with rfl | hd
    · exact hsmall hsource hw.source
    rcases List.mem_cons.1 hd with rfl | hd
    · exact hsmall hline hw.originLine
    rcases List.mem_cons.1 hd with rfl | hd
    · exact hsmall hcolumn hw.originColumn
    cases hn : o.name with
    | none => simp [hn] at hd
    | some n =>
      rw [hn, List.mem_singleton] at hd
      rw [hd]
      exact hsmall (hname n hn).2 hw.name

/-! ## Lines and segments -/

/-- **Read on within a line**: what is left of it, then the lines after it. -/
def readOn (sources names : List String) (line column : Nat) (run : Running) (cs : List Char) : Option (List Mapping) :=
  match Text.pieces ';' cs with
  | [] => none
  | p :: ps => do
    let (here, run) ← lineSegments sources names line column run (Text.pieces ',' p)
    let rest ← allLines sources names (line + 1) run ps []
    return here ++ rest

variable {sources names : List String} {line column : Nat} {run : Running}

theorem allLines_ranges {ranges : List (List Char)} (hranges : ∀ r ∈ ranges, r = []) (ls : List (List Char)) :
    allLines sources names line run ls ranges = allLines sources names line run ls [] := by
  induction ls generalizing line run ranges with
  | nil => rfl
  | cons l ls ih =>
    have hhead : ranges.headD [] = [] := by
      cases ranges with
      | nil => rfl
      | cons r ranges => exact hranges r (List.mem_cons_self ..)
    have htail {line : Nat} {run : Running} :
        allLines sources names line run ls ranges.tail = allLines sources names line run ls [] :=
      ih fun r hr => hranges r (List.mem_of_mem_tail hr)
    rw [allLines, allLines, hhead]
    simp only [htail, List.headD_nil, List.tail_nil]
    rfl

theorem allLines_pieces (cs : List Char) :
    allLines sources names line run (Text.pieces ';' cs) [] = readOn sources names line 0 run cs := by
  unfold readOn
  obtain ⟨p, ps, hp⟩ := List.exists_cons_of_ne_nil (Text.pieces_ne_nil ';' cs)
  rw [hp]
  cases p with
  | nil => simp [allLines, Text.pieces, lineSegments]
  | cons c p => simp [allLines]

theorem readOn_nil : readOn sources names line column run [] = some [] := by
  simp [readOn, Text.pieces, lineSegments, allLines]

theorem readOn_line (cs : List Char) :
    readOn sources names line column run (';' :: cs) = readOn sources names (line + 1) 0 run cs := by
  rw [← allLines_pieces, readOn, Text.pieces_separator]
  simp [Text.pieces, lineSegments]

theorem readOn_comma (cs : List Char) :
    readOn sources names line column run (',' :: cs) = readOn sources names line column run cs := by
  obtain ⟨p, ps, hp⟩ := List.exists_cons_of_ne_nil (Text.pieces_ne_nil ';' cs)
  have hcomma : Text.pieces ';' (',' :: cs) = (',' :: p) :: ps :=
    Text.pieces_append (show ∀ c ∈ [','], c ≠ ';' by simp) hp
  rw [readOn, readOn, hcomma, hp]
  simp only [Text.pieces_separator, lineSegments]

/-- **What may stand behind a segment.** -/
def Separated (cs : List Char) : Prop := ∀ c ∈ cs.head?, c = ',' ∨ c = ';'

theorem Separated.pieces {cs p : List Char} {ps : List (List Char)} (hcs : Separated cs)
    (hp : Text.pieces ';' cs = p :: ps) : ∃ qs, Text.pieces ',' p = [] :: qs := by
  cases cs with
  | nil =>
    obtain ⟨rfl, -⟩ := List.cons.inj hp
    exact ⟨[], rfl⟩
  | cons c cs =>
    rcases hcs c rfl with rfl | rfl
    · obtain ⟨q, qs, hq⟩ := List.exists_cons_of_ne_nil (Text.pieces_ne_nil ';' cs)
      rw [← List.singleton_append, Text.pieces_append (by simp) hq] at hp
      obtain ⟨rfl, -⟩ := List.cons.inj hp
      exact ⟨_, Text.pieces_separator ',' q⟩
    · rw [Text.pieces_separator] at hp
      obtain ⟨rfl, -⟩ := List.cons.inj hp
      exact ⟨[], rfl⟩

/-- **A segment gives its mapping**, and reading goes on behind it. -/
theorem readOn_segment {text cs : List Char} (htext : ∀ c ∈ text, c ≠ ';' ∧ c ≠ ',') (hne : text ≠ [])
    (hcs : Separated cs) {numbers : List Int} (hnumbers : Vlq.decode text = some numbers) {m : Mapping} {run' : Running}
    (hm : segment sources names line column run numbers = some (m, run')) :
    readOn sources names line column run (text ++ cs) =
      (readOn sources names line m.column run' cs).map (m :: ·) := by
  obtain ⟨p, ps, hp⟩ := List.exists_cons_of_ne_nil (Text.pieces_ne_nil ';' cs)
  obtain ⟨qs, hqs⟩ := hcs.pieces hp
  have hline : Text.pieces ';' (text ++ cs) = (text ++ p) :: ps := Text.pieces_append (fun c hc => (htext c hc).1) hp
  have hsegments : Text.pieces ',' (text ++ p) = text :: qs := by
    rw [Text.pieces_append (fun c hc => (htext c hc).2) hqs, List.append_nil]
  have hread : lineSegments sources names line column run (text :: qs) =
      (lineSegments sources names line m.column run' qs).map fun r => (m :: r.1, r.2) := by
    rw [lineSegments]
    · simp only [hnumbers, hm, Option.bind_eq_bind, Option.bind_some]
      cases lineSegments sources names line m.column run' qs <;> rfl
    · exact hne
  rw [readOn, readOn, hline, hp]
  simp only [hsegments, hqs, hread, lineSegments]
  cases hmore : lineSegments sources names line m.column run' qs with
  | none => rfl
  | some r =>
    simp only [Option.map_some, Option.bind_eq_bind, Option.bind_some]
    cases allLines sources names (line + 1) r.2 ps [] <;> rfl

/-! ## All mappings -/

/-- **The mappings that do not just repeat the one before**, after `previous`. -/
def fresh : Option Mapping → List Mapping → List Mapping
  | _, [] => []
  | previous, m :: ms => if previous = some m then fresh previous ms else m :: fresh (some m) ms

theorem fresh_none (ms : List Mapping) : fresh none ms = ms.destutter (· ≠ ·) := by
  have hsome (ms : List Mapping) (p : Mapping) : p :: fresh (some p) ms = ms.destutter' (· ≠ ·) p := by
    induction ms generalizing p with
    | nil => rfl
    | cons m ms ih =>
      by_cases h : p = m
      · rw [fresh, if_pos (by rw [h]), List.destutter'_cons_neg _ (by simpa using h), ih]
      · rw [fresh, if_neg (by simpa using h), List.destutter'_cons_pos _ h, ih]
  cases ms with
  | nil => rfl
  | cons m ms => rw [fresh, if_neg (by simp), List.destutter_cons', hsome]

theorem mappingsText_newLine {w : Written} {m : Mapping} (hline : m.line ≠ w.line) (previous : Option Mapping)
    (ms : List Mapping) :
    mappingsText sources names w previous (m :: ms) = List.replicate (m.line - w.line) ';' ++
      ((segmentText sources names { w with column := 0 } m).1 ++
        mappingsText sources names (segmentText sources names { w with column := 0 } m).2 (some m) ms) := by
  rw [mappingsText, if_pos (by simpa using hline), ← List.append_assoc]

theorem mappingsText_sameLine {w : Written} {m : Mapping} (hline : m.line = w.line) {previous : Option Mapping}
    (hfresh : previous ≠ some m) (ms : List Mapping) :
    mappingsText sources names w previous (m :: ms) = (if previous.isSome then [','] else []) ++
      ((segmentText sources names w m).1 ++
        mappingsText sources names (segmentText sources names w m).2 (some m) ms) := by
  rw [mappingsText, if_neg (by simpa using hline), if_neg (by simpa using hfresh), ← List.append_assoc]

theorem mappingsText_repeat {w : Written} {m : Mapping} (hline : m.line = w.line) (ms : List Mapping) :
    mappingsText sources names w (some m) (m :: ms) = mappingsText sources names w (some m) ms := by
  rw [mappingsText, if_neg (by simpa using hline), if_pos BEq.rfl]

theorem separated_mappingsText {w : Written} {ms : List Mapping} (hlines : ∀ m ∈ ms, w.line ≤ m.line) (p : Mapping) :
    Separated (mappingsText sources names w (some p) ms) := by
  induction ms with
  | nil =>
    intro c hc
    cases hc
  | cons m ms ih =>
    by_cases hline : m.line = w.line
    · by_cases hrepeat : p = m
      · rw [hrepeat, mappingsText_repeat hline, ← hrepeat]
        exact ih fun x hx => hlines x (List.mem_cons_of_mem _ hx)
      · rw [mappingsText_sameLine hline (by simpa using hrepeat)]
        intro c hc
        cases hc
        exact .inl rfl
    · have hle : w.line ≤ m.line := hlines m (List.mem_cons_self ..)
      rw [mappingsText_newLine hline, show m.line - w.line = m.line - w.line - 1 + 1 by omega, List.replicate_succ]
      intro c hc
      cases hc
      exact .inr rfl

theorem readOn_lines (n : Nat) (cs : List Char) :
    readOn sources names line column run (List.replicate (n + 1) ';' ++ cs) =
      readOn sources names (line + (n + 1)) 0 run cs := by
  induction n generalizing line column with
  | zero => exact readOn_line cs
  | succ n ih =>
    rw [List.replicate_succ, List.cons_append, readOn_line, ih, Nat.add_assoc, Nat.add_comm 1]

/-- **Written mappings are read back**, except those that repeat the one before. -/
theorem readOn_mappingsText {w : Written} (hw : w.Small) {ms : List Mapping} (hms : ∀ m ∈ ms, Fits sources names m)
    (hsorted : ms.Pairwise (·.line ≤ ·.line)) (hlines : ∀ m ∈ ms, w.line ≤ m.line) {previous : Option Mapping}
    (hprevious : ∀ p ∈ previous, p.line = w.line) :
    readOn sources names w.line w.column w.running (mappingsText sources names w previous ms) =
      some (fresh previous ms) := by
  induction ms generalizing w previous with
  | nil => exact readOn_nil
  | cons m ms ih =>
    have hm : Fits sources names m := hms m (List.mem_cons_self ..)
    have hrest : ∀ x ∈ ms, m.line ≤ x.line := fun x hx => List.rel_of_pairwise_cons hsorted hx
    -- what a segment adds, when the reader is on the mapping's own line
    have hstep {v : Written} (hv : v.Small) :
        readOn sources names m.line v.column v.running ((segmentText sources names v m).1 ++
          mappingsText sources names (segmentText sources names v m).2 (some m) ms) = some (m :: fresh (some m) ms) := by
      obtain ⟨hnext, hnextLine, hnextColumn⟩ := segmentText_next hm hv
      have hmore : readOn sources names (segmentText sources names v m).2.line (segmentText sources names v m).2.column
          (segmentText sources names v m).2.running
          (mappingsText sources names (segmentText sources names v m).2 (some m) ms) = some (fresh (some m) ms) :=
        ih hnext (fun x hx => hms x (List.mem_cons_of_mem _ hx)) hsorted.of_cons (by rw [hnextLine]; exact hrest)
          (by simp [hnextLine])
      rw [readOn_segment _ _ _ (decode_segmentText hm hv) (segment_differences hm v)]
      · rw [← hnextLine, ← hnextColumn, hmore, Option.map_some]
      · rw [segmentText_eq]
        exact Vlq.encodeAll_plain _
      · rw [segmentText_eq]
        exact Vlq.encodeAll_ne_nil _ _
      · exact separated_mappingsText (by rw [hnextLine]; exact hrest) m
    have hle : w.line ≤ m.line := hlines m (List.mem_cons_self ..)
    by_cases hline : m.line = w.line
    · by_cases hrepeat : previous = some m
      · rw [hrepeat, mappingsText_repeat hline, fresh, if_pos rfl, ← hrepeat]
        exact ih hw (fun x hx => hms x (List.mem_cons_of_mem _ hx)) hsorted.of_cons
          (fun x hx => hlines x (List.mem_cons_of_mem _ hx)) hprevious
      · have hcomma (cs : List Char) : readOn sources names w.line w.column w.running
            ((if previous.isSome then [','] else []) ++ cs) = readOn sources names w.line w.column w.running cs := by
          split
          · exact readOn_comma cs
          · rfl
        rw [mappingsText_sameLine hline hrepeat, fresh, if_neg hrepeat, hcomma, ← hline]
        exact hstep hw
    · have hfresh : previous ≠ some m := fun h => hline (hprevious m h)
      have hcount : m.line - w.line = m.line - w.line - 1 + 1 := by omega
      rw [mappingsText_newLine hline, fresh, if_neg hfresh, hcount, readOn_lines, ← hcount,
        show w.line + (m.line - w.line) = m.line by omega]
      exact hstep ⟨(show 0 < mapLimit by decide), hw.source, hw.originLine, hw.originColumn, hw.name⟩

end SourceMap
end Localizer
