import Mathlib.Data.List.Pairwise
import Localizer.Extraction
import Localizer.Proofs.Stretches
import Localizer.Proofs.Reading.Statements
/-!
# Requests — what the calls of a script ask for

An accepted call asks for two spans to be replaced, its key and its message, and a load call without arguments for the
span between its parentheses.  All of them can be cut out of the file, so whatever a script is changed to, it is the old
text with these spans replaced (`extract_replaces`).  The layout of the tree keeps the spans of different calls apart,
with one exception: a key may be an object that holds further calls, and what those ask for lies inside it.  That is the
only way in which patches can be refused (`Calls.apply_patches`).
-/
namespace Localizer

open Source
open Text (Cut ByteEdit Replaced byteLength)

/-! ## Where a script can be cut -/

theorem Text.Cut.before {front back : List Char} {c : Char} (hc : c ≠ '\n') :
    Cut (front ++ c :: back) (byteLength front) :=
  ⟨front, c :: back, rfl, rfl, fun h => hc (Option.some.inj h.2)⟩

theorem Text.Cut.behind {front back : List Char} {c : Char} (hc : c ≠ '\r') :
    Cut (front ++ c :: back) (byteLength (front ++ [c])) :=
  ⟨front ++ [c], back, by simp, rfl, fun h => hc (by simpa using h.1)⟩

theorem Source.Quoted.cuts {whole : List Char} {span : Span} {value : Cooked} (h : Quoted whole span value) :
    span.lo ≤ span.hi ∧ Cut whole span.lo ∧ Cut whole span.hi := by
  obtain ⟨front, quote, raw, back, hquote, rfl, rfl, -⟩ := h
  have hone : quote.utf8Size = 1 := by rcases hquote with rfl | rfl <;> decide
  refine ⟨by dsimp only; omega, .before (by rcases hquote with rfl | rfl <;> decide), ?_⟩
  have hcut : Cut ((front ++ quote :: raw) ++ quote :: back) (byteLength ((front ++ quote :: raw) ++ [quote])) :=
    .behind (by rcases hquote with rfl | rfl <;> decide)
  have hlen : byteLength ((front ++ quote :: raw) ++ [quote]) = byteLength front + byteLength raw + 2 := by
    simp only [Text.byteLength_append, byteLength, hone]
    omega
  rw [hlen] at hcut
  simpa using hcut

theorem Source.Bracketed.cuts {whole : List Char} {span : Span} {first last : Char} (h : Bracketed whole span first last)
    (hfirst : first ≠ '\n') (hlast : last ≠ '\r') : Cut whole span.lo ∧ Cut whole span.hi := by
  obtain ⟨⟨front, back, rfl, hlo⟩, front', back', hwhole, hhi⟩ := h
  refine ⟨hlo ▸ .before hfirst, ?_⟩
  rw [hhi, hwhole]
  exact .behind hlast

/-- **The text of a script behind its mark**, with what the walk comes across in good order. -/
structure Script.Body (script : Script) (body : List Char) : Prop where
  marked : ∃ mark, script.text = mark ++ body ∧ byteLength mark = script.markLength ∧ mark.getLast? ≠ some '\r'
  laid : ∃ hi, Laid body 0 hi script.program.visited

theorem Script.laid_of_parse {file : String} {text : List Char} {script : Script}
    (h : Script.parse file text = .ok script) : script.text = text ∧ script.markLength = (splitMark text).1 ∧
      ∃ hi, Laid (splitMark text).2 0 hi script.program.nodes := by
  unfold Script.parse at h
  dsimp only at h
  split at h
  · rename_i program hread
    cases h
    exact ⟨rfl, rfl, Program.laid_of_read hread⟩
  · cases h

theorem Script.body_of_parse {file : String} {text : List Char} {script : Script}
    (h : Script.parse file text = .ok script) : script.text = text ∧ ∃ body, script.Body body := by
  have hmark : ∃ mark, text = mark ++ (splitMark text).2 ∧ byteLength mark = (splitMark text).1 ∧
      mark.getLast? ≠ some '\r' := by
    fun_cases splitMark text with
    | case1 c cs hc => exact ⟨[c], rfl, by simp [byteLength], by rw [eq_of_beq hc]; decide⟩
    | case2 c cs hc => exact ⟨[], rfl, rfl, by simp⟩
    | case3 => exact ⟨[], rfl, rfl, by simp⟩
  obtain ⟨rfl, hlength, hi, hlaid⟩ := laid_of_parse h
  rw [← hlength] at hmark
  exact ⟨rfl, _, hmark, hi, hlaid.subperm script.program.visited_sublist.subperm⟩

theorem Script.Body.cut {script : Script} {body : List Char} (h : script.Body body) {n : Nat} (hn : Cut body n) :
    Cut script.text (n + script.markLength) := by
  obtain ⟨mark, htext, hlen, hmark⟩ := h.marked
  obtain ⟨front, back, rfl, rfl, hcut⟩ := hn
  refine ⟨mark ++ front, back, by rw [htext, List.append_assoc], ?_, fun ⟨hr, hn⟩ => ?_⟩
  · rw [Text.byteLength_append, hlen, Nat.add_comm]
  · rw [List.getLast?_append] at hr
    cases hf : front.getLast? with
    | none => exact hmark (by simpa [hf] using hr)
    | some c => exact hcut ⟨by rw [hf]; simpa [hf] using hr, hn⟩

theorem Script.Body.slice {script : Script} {body : List Char} (h : script.Body body) (front mid back : List Char)
    {span : Span} (hsplit : body = front ++ (mid ++ back)) (hlo : span.lo = byteLength front)
    (hhi : span.hi = byteLength front + byteLength mid) : script.slice span = mid := by
  obtain ⟨mark, htext, hlen, -⟩ := h.marked
  have hslice := Text.sliceBytes_append (mark ++ front) mid back
  rw [Text.byteLength_append, List.append_assoc, ← hsplit, ← htext, hlen] at hslice
  rw [Script.slice, hlo, hhi, Nat.add_comm (byteLength front), Nat.add_right_comm, Nat.add_comm (byteLength front)]
  exact hslice

namespace Calls

/-! ## The span between the parentheses of a call -/

theorem lastOpen_eq_some : ∀ {cs : List Char} {n : Nat}, lastOpen cs = some n →
    ∃ front back, cs = front ++ '(' :: back ∧ byteLength front = n
  | c :: cs, n, h => by
    rw [lastOpen] at h
    split at h
    · rename_i m hm
      obtain ⟨front, back, rfl, rfl⟩ := lastOpen_eq_some hm
      cases h
      exact ⟨c :: front, back, rfl, rfl⟩
    · split at h
      · rename_i hc
        cases h
        exact ⟨[], cs, by rw [eq_of_beq hc]; rfl, rfl⟩
      · cases h

/-- **The span between a call's parentheses** lies behind the callee and before the end, and can be cut out. -/
theorem argumentSpan?_eq_some {script : Script} {span between : Span} {callee : Expr}
    (h : argumentSpan? script span callee = some between) :
    callee.span.hi < between.lo ∧ between.hi < span.hi ∧ script.Cuts between := by
  unfold argumentSpan? at h
  split at h
  · cases h
  · rename_i hcond
    simp only [Bool.or_eq_true, decide_eq_true_eq, bne_iff_ne, ne_eq, not_or, Decidable.not_not, Nat.not_le] at hcond
    obtain ⟨hlt, hclose⟩ := hcond
    obtain ⟨n, hopen, rfl⟩ := Option.map_eq_some_iff.1 h
    obtain ⟨front, back, hslice, rfl⟩ := lastOpen_eq_some hopen
    have hne : script.slice ⟨callee.span.hi, span.hi - 1⟩ ≠ [] := by rw [hslice]; simp
    obtain ⟨hle, before, rest, htext, hbefore⟩ := Text.sliceBytes_split hne
    change byteLength (script.slice _) ≤ _ at hle
    change script.text = before ++ (script.slice _ ++ rest) at htext
    rw [hslice] at hle htext
    have hone : '('.utf8Size = 1 := by decide
    simp only [Text.byteLength_append, byteLength, hone] at hle
    refine ⟨by dsimp only; omega, by dsimp only; omega, by dsimp only; omega, ?_, ?_⟩
    · have hcut : Cut ((before ++ front) ++ '(' :: (back ++ rest)) (byteLength ((before ++ front) ++ ['('])) :=
        .behind (by decide)
      simp only [Text.byteLength_append, byteLength, hone, hbefore] at hcut
      rw [htext, show callee.span.hi + byteLength front + 1 + script.markLength =
        callee.span.hi + script.markLength + byteLength front + (1 + 0) by omega]
      simpa using hcut
    · have hne' : script.slice ⟨span.hi - 1, span.hi⟩ ≠ [] := by rw [hclose]; simp
      obtain ⟨-, before', rest', htext', hbefore'⟩ := Text.sliceBytes_split hne'
      change script.text = before' ++ (script.slice _ ++ rest') at htext'
      rw [hclose] at htext'
      rw [htext', ← hbefore']
      exact .before (by decide)

/-! ## Accepted calls -/

theorem keyOf_eq_ok {e : Expr} {key : Key} (h : keyOf e = .ok key) :
    (∃ span value, e = .string span value) ∨ ∃ span members, e = .object span members := by
  unfold keyOf at h
  split at h
  · exact .inl ⟨_, _, rfl⟩
  · exact .inr ⟨_, _, rfl⟩
  · cases h

theorem plainArg?_eq_some {args : List Expr} {i : Nat} {e : Expr} (h : plainArg? args i = some e) :
    args[i]? = some e := by
  unfold plainArg? at h
  split at h
  · cases h
  · exact h

/-- **A call is accepted exactly if its arguments start with a key and a string**, whose text is the message. -/
theorem entryOf_eq_ok_iff {script : Script} {span : Span} {args : List Expr} {entry : Entry} :
    entryOf script span args = .ok entry ↔ ∃ key value rest, args = key :: .string entry.messageSpan value :: rest ∧
      entry.keySpan = key.span ∧ keyOf key = .ok entry.key ∧
      entry.message = String.ofList (Text.unescape (betweenQuotes (script.slice entry.messageSpan))) := by
  constructor
  · intro h
    unfold entryOf at h
    split at h
    · cases h
    rename_i key hkey
    split at h
    · cases h
    rename_i k hk
    split at h
    · cases h
    · rename_i messageSpan value hmessage
      cases h
      have h0 := plainArg?_eq_some hkey
      have h1 := plainArg?_eq_some hmessage
      match args, h0, h1 with
      | _ :: _ :: rest, h0, h1 =>
        cases h0
        cases h1
        exact ⟨key, value, rest, rfl, rfl, hk, rfl⟩
    · cases h
  · obtain ⟨entryKey, keySpan, message, messageSpan⟩ := entry
    rintro ⟨key, value, rest, rfl, rfl, hkey, hmessage⟩
    dsimp only at hmessage hkey
    subst hmessage
    have hplain : plainArg? (key :: .string messageSpan value :: rest) 0 = some key := by
      cases key with
      | spread => cases hkey
      | _ => rfl
    have hstring : plainArg? (key :: .string messageSpan value :: rest) 1 = some (.string messageSpan value) := rfl
    simp only [entryOf, hplain, hkey, hstring]

/-! ## Requests -/

/-- **What a call asks for.** -/
inductive Request where
  /-- a load call without arguments: the span between its parentheses is to name the file -/
  | fill (between : Span)
  /-- an accepted call: its key is to become a number and its message `null` -/
  | number (entry : Entry)

/-- **The spans that are to be replaced.** -/
def Request.spans : Request → List Span
  | .fill between => [between]
  | .number entry => [entry.keySpan, entry.messageSpan]

/-- **The entry of an accepted call.** -/
def Site.accepted? (site : Site) : Option Entry := site.outcome.toOption

/-- **What a visit asks for.** -/
def Names.requests (names : Names) (script : Script) (v : Visit) : List Request :=
  (emptyLoad? script names.reads v).toList.map .fill ++
    (((directSite? script names.reads v).bind Site.accepted?).toList.map .number ++
      ((boundSite? script names.res names.bindings v).bind Site.accepted?).toList.map .number)

theorem boundSite?_eq_none {script : Script} {res : Resolution} {bindings : List Binding} {span : Span} {callee : Expr}
    {args : List Expr} (h : ∀ id, callee.unparen ≠ .ident id) :
    boundSite? script res bindings (.call span callee args) = none := by
  have hcallee : boundCallee? res bindings (.call span callee args) = none := by
    rw [boundCallee?]
    split
    · rename_i id hid
      exact absurd hid (h id)
    · rfl
  simp only [boundSite?, hcallee]

theorem boundSite?_cases (script : Script) (res : Resolution) (bindings : List Binding) (span : Span) (callee : Expr)
    (args : List Expr) : boundSite? script res bindings (.call span callee args) = none ∨
      boundSite? script res bindings (.call span callee args) = some ⟨span.lo, entryOf script span args⟩ := by
  unfold boundSite?
  cases boundCallee? res bindings (.call span callee args) with
  | none => exact .inl rfl
  | some id => exact .inr rfl

/-- **One request at most**: a load call is no call of a localize function, and one that is made on a load call has no
name. -/
theorem Names.requests_cases (names : Names) (script : Script) (v : Visit) :
    names.requests script v = [] ∨ ∃ span callee args, v = .call span callee args ∧
      ((args = [] ∧ ∃ between, names.requests script v = [.fill between] ∧
          argumentSpan? script span callee = some between) ∨
        ∃ entry, names.requests script v = [.number entry] ∧ entryOf script span args = .ok entry) := by
  cases v with
  | call span callee args =>
    have hentry : ∀ outcome, (⟨span.lo, outcome⟩ : Site).accepted? = none ∨
        ∃ entry, (⟨span.lo, outcome⟩ : Site).accepted? = some entry ∧ outcome = .ok entry := by
      rintro (flaw | entry)
      · exact .inl rfl
      · exact .inr ⟨entry, rfl, rfl⟩
    unfold requests emptyLoad? directSite?
    by_cases hload : isLoader names.reads callee.unparen
    · have hbound : boundSite? script names.res names.bindings (.call span callee args) = none :=
        boundSite?_eq_none fun id hid => by rw [hid] at hload; cases hload
      cases args with
      | nil =>
        cases hspan : argumentSpan? script span callee with
        | none => exact .inl (by simp [hload, hbound, hspan])
        | some between => exact .inr ⟨_, _, _, rfl, .inl ⟨rfl, between, by simp [hload, hbound, hspan], hspan⟩⟩
      | cons => exact .inl (by simp [hload, hbound])
    · by_cases hmade : isLoad names.reads callee.unparen
      · have hbound : boundSite? script names.res names.bindings (.call span callee args) = none :=
          boundSite?_eq_none fun id hid => by rw [hid] at hmade; cases hmade
        rcases hentry (entryOf script span args) with hno | ⟨entry, hsome, hok⟩
        · exact .inl (by simp [hload, hmade, hbound, hno])
        · exact .inr ⟨_, _, _, rfl, .inr ⟨entry, by simp [hload, hmade, hbound, hsome], hok⟩⟩
      · rcases boundSite?_cases script names.res names.bindings span callee args with hbound | hbound
        · exact .inl (by simp [hload, hmade, hbound])
        rcases hentry (entryOf script span args) with hno | ⟨entry, hsome, hok⟩
        · exact .inl (by simp [hload, hmade, hbound, hno])
        · exact .inr ⟨_, _, _, rfl, .inr ⟨entry, by simp [hload, hmade, hbound, hsome], hok⟩⟩
  | _ => exact .inl rfl

/-! ## Requests lie within their calls -/

section Layout

variable {script : Script} {body : List Char} {span : Span} {callee : Expr} {args : List Expr}

theorem cuts_of_set (hbody : script.Body body) {e : Expr} (hset : e.Set body)
    (h : (∃ span value, e = .string span value) ∨ ∃ span members, e = .object span members) : script.Cuts e.span := by
  rcases h with ⟨span, value, rfl⟩ | ⟨span, members, rfl⟩
  · obtain ⟨cooked, hquoted, -⟩ := hset.enclosed
    obtain ⟨hle, hlo, hhi⟩ := hquoted.cuts
    exact ⟨hle, hbody.cut hlo, hbody.cut hhi⟩
  · obtain ⟨hlo, hhi⟩ := Bracketed.cuts hset.enclosed.1 (by decide) (by decide)
    exact ⟨hset.lo_le_hi, hbody.cut hlo, hbody.cut hhi⟩

/-- **The spans of a request** lie behind the callee and before the end of the call, apart from each other. -/
theorem Names.spans_within (names : Names) (hbody : script.Body body)
    (hform : (Node.call span callee args).Formed body) {r : Request}
    (hr : r ∈ names.requests script (.call span callee args)) :
    (∀ x ∈ r.spans, script.Cuts x ∧ callee.span.hi ≤ x.lo ∧ x.hi < span.hi) ∧ r.spans.Pairwise Span.Separate := by
  obtain ⟨-, -, -, hrow⟩ := hform
  rcases names.requests_cases script (.call span callee args) with
    hno | ⟨_, _, _, ⟨⟩, ⟨-, between, hreq, hspan⟩ | ⟨entry, hreq, hentry⟩⟩
  · rw [hno] at hr
    cases hr
  · rw [hreq] at hr
    obtain rfl := List.mem_singleton.1 hr
    obtain ⟨hlo, hhi, hcuts⟩ := argumentSpan?_eq_some hspan
    refine ⟨fun x hx => ?_, List.pairwise_singleton _ _⟩
    obtain rfl := List.mem_singleton.1 hx
    exact ⟨hcuts, Nat.le_of_lt hlo, hhi⟩
  · rw [hreq] at hr
    obtain rfl := List.mem_singleton.1 hr
    obtain ⟨key, value, rest, rfl, hkey, hread, -⟩ := entryOf_eq_ok_iff.1 hentry
    have hkind := keyOf_eq_ok hread
    refine ⟨fun x hx => ?_, ?_⟩
    · rcases List.mem_pair.1 hx with rfl | rfl
      · rw [hkey]
        exact ⟨cuts_of_set hbody (hrow.set key (by simp)) hkind, hrow.within key (by simp)⟩
      · have hmem : Expr.string entry.messageSpan value ∈ key :: .string entry.messageSpan value :: rest := by simp
        exact ⟨cuts_of_set hbody (hrow.set _ hmem) (.inl ⟨_, _, rfl⟩), hrow.within _ hmem⟩
    · refine List.pairwise_pair.2 (.inl ?_)
      rw [hkey]
      exact List.rel_of_pairwise_cons hrow.apart (List.mem_cons_self ..)

/-- **What a call asks for and what a call inside it asks for** is apart, unless the inner call is in the key. -/
theorem Names.separate_of_inside (names : Names) (hbody : script.Body body)
    (hform : (Node.call span callee args).Formed body) {r : Request}
    (hr : r ∈ names.requests script (.call span callee args)) {span' : Span} {callee' : Expr} {args' : List Expr}
    (hform' : (Node.call span' callee' args').Formed body) {q : Request}
    (hq : q ∈ names.requests script (.call span' callee' args'))
    (hin : (Node.call span' callee' args').Inside (.call span callee args)) :
    (∀ x ∈ r.spans, ∀ y ∈ q.spans, x.Separate y) ∨ ∃ entry, r = .number entry ∧ entry.keySpan.holds span' = true := by
  have hspans := (names.spans_within hbody hform hr).1
  have hspans' := (names.spans_within hbody hform' hq).1
  obtain ⟨hlo, hhi, hcallee, hrow⟩ := hform
  obtain ⟨hlo', hhi', hcallee', hrow'⟩ := hform'
  rcases hin with hin | ⟨e, he, hin⟩
  · have hwithin := hcallee.within _ hin
    refine .inl fun x hx y hy => .inr ?_
    have hx' := hspans x hx
    have hy' := hspans' y hy
    dsimp only [Node.span] at hwithin
    omega
  have hwithin := (hrow.set e he).within _ hin
  dsimp only [Node.span] at hwithin
  rcases names.requests_cases script (.call span callee args) with
    hno | ⟨_, _, _, ⟨⟩, ⟨hnil, -⟩ | ⟨entry, hreq, hentry⟩⟩
  · rw [hno] at hr
    cases hr
  · rw [hnil] at he
    cases he
  · rw [hreq] at hr
    obtain rfl := List.mem_singleton.1 hr
    obtain ⟨key, value, rest, rfl, hkey, -⟩ := entryOf_eq_ok_iff.1 hentry
    have hapart := hrow.apart
    rw [List.pairwise_cons, List.pairwise_cons] at hapart
    obtain ⟨hkeys, hmessages, -⟩ := hapart
    rcases List.mem_cons.1 he with rfl | he
    · exact .inr ⟨entry, rfl, by simp [Span.holds, hkey, hwithin]⟩
    rcases List.mem_cons.1 he with rfl | he
    · cases hin
    -- behind the message, and the key stands before that
    have hmessage := hmessages e he
    have hkeymessage := hkeys _ (List.mem_cons_of_mem _ he)
    refine .inl fun x hx y hy => .inl ?_
    have hy' := hspans' y hy
    have hx' : x.hi < e.span.lo := by
      rcases List.mem_pair.1 hx with rfl | rfl
      · rw [hkey]
        exact hkeymessage
      · exact hmessage
    have := hcallee'.lo_le_hi
    omega

/-- **What two calls ask for is apart**, unless one of them is in the key of the other. -/
theorem Names.separate_of_apart (names : Names) (hbody : script.Body body)
    (hform : (Node.call span callee args).Formed body) {r : Request}
    (hr : r ∈ names.requests script (.call span callee args)) {span' : Span} {callee' : Expr} {args' : List Expr}
    (hform' : (Node.call span' callee' args').Formed body) {q : Request}
    (hq : q ∈ names.requests script (.call span' callee' args'))
    (hapart : (Node.call span callee args).Apart (.call span' callee' args')) :
    (∀ x ∈ r.spans, ∀ y ∈ q.spans, x.Separate y) ∨ (∃ entry, r = .number entry ∧ entry.keySpan.holds span' = true) ∨
      ∃ entry, q = .number entry ∧ entry.keySpan.holds span = true := by
  have hspans := (names.spans_within hbody hform hr).1
  have hspans' := (names.spans_within hbody hform' hq).1
  rcases hapart with hle | hle | hin | hin
  · refine .inl fun x hx y hy => .inl ?_
    have hx' := hspans x hx
    have hy' := hspans' y hy
    have := hform'.1
    have := hform'.2.2.1.lo_le_hi
    dsimp only [Node.span] at hle
    omega
  · refine .inl fun x hx y hy => .inr ?_
    have hx' := hspans x hx
    have hy' := hspans' y hy
    have := hform.1
    have := hform.2.2.1.lo_le_hi
    dsimp only [Node.span] at hle
    omega
  · rcases names.separate_of_inside hbody hform' hq hform hr hin with h | h
    · exact .inl fun x hx y hy => (h y hy x hx).symm
    · exact .inr (.inr h)
  · rcases names.separate_of_inside hbody hform hr hform' hq hin with h | h
    · exact .inl h
    · exact .inr (.inl h)

/-- **A call in the key of another one** asks for something inside that key. -/
theorem Names.not_separate_of_holds (names : Names) (hbody : script.Body body)
    (hform : (Node.call span callee args).Formed body) {r : Request}
    (hr : r ∈ names.requests script (.call span callee args)) {key : Span} (hkey : key.holds span = true) :
    ∀ x ∈ r.spans, ¬ key.Separate x := by
  intro x hx hsep
  have hx' := (names.spans_within hbody hform hr).1 x hx
  have := hx'.1.lo_le_hi
  have := hform.1
  have := hform.2.2.1.lo_le_hi
  simp only [Span.holds, Bool.and_eq_true, decide_eq_true_eq] at hkey
  rcases hsep with h | h <;> omega

end Layout

/-! ## All calls of a script -/

/-- **The spans that are to be replaced.** -/
def Names.spans (names : Names) (script : Script) (visits : List Visit) : List Span :=
  visits.flatMap fun v => (names.requests script v).flatMap Request.spans

/-- **The keys of the accepted calls.** -/
def Names.keySpans (names : Names) (script : Script) (visits : List Visit) : List Span :=
  (visits.flatMap (names.requests script)).filterMap fun
    | .number entry => some entry.keySpan
    | .fill _ => none

/-- **The calls that ask for something.** -/
def Names.askingCalls (names : Names) (script : Script) (visits : List Visit) : List Span :=
  visits.filterMap fun
    | .call span callee args => if (names.requests script (.call span callee args)).isEmpty then none else some span
    | _ => none

/-- **A call that asks for something stands in the key of another one.** -/
def Names.nestedInKey (names : Names) (script : Script) (visits : List Visit) : Bool :=
  (names.keySpans script visits).any fun key => (names.askingCalls script visits).any key.holds

theorem Names.nestedInKey_iff {names : Names} {script : Script} {visits : List Visit} :
    names.nestedInKey script visits = true ↔
      ∃ v ∈ visits, ∃ entry, .number entry ∈ names.requests script v ∧
        ∃ span callee args, .call span callee args ∈ visits ∧
          (∃ r, r ∈ names.requests script (.call span callee args)) ∧ entry.keySpan.holds span = true := by
  have hkeys : ∀ key, key ∈ names.keySpans script visits ↔
      ∃ v ∈ visits, ∃ entry, .number entry ∈ names.requests script v ∧ entry.keySpan = key := by
    intro key
    simp only [keySpans, List.mem_filterMap, List.mem_flatMap]
    constructor
    · rintro ⟨r, ⟨v, hv, hr⟩, hkey⟩
      cases r with
      | number entry => exact ⟨v, hv, entry, hr, Option.some.inj hkey⟩
      | fill between => cases hkey
    · rintro ⟨v, hv, entry, hr, rfl⟩
      exact ⟨.number entry, ⟨v, hv, hr⟩, rfl⟩
  have hcalls : ∀ span, span ∈ names.askingCalls script visits ↔ ∃ callee args, .call span callee args ∈ visits ∧
      ∃ r, r ∈ names.requests script (.call span callee args) := by
    intro span
    simp only [askingCalls, List.mem_filterMap]
    constructor
    · rintro ⟨v, hv, hspan⟩
      cases v with
      | call span' callee args =>
        dsimp only at hspan
        split at hspan
        · cases hspan
        · rename_i hne
          cases hspan
          exact ⟨callee, args, hv, List.exists_mem_of_ne_nil _ (by simpa using hne)⟩
      | _ => cases hspan
    · rintro ⟨callee, args, hv, r, hr⟩
      refine ⟨_, hv, ?_⟩
      dsimp only
      rw [if_neg (by simpa using List.ne_nil_of_mem hr)]
  simp only [nestedInKey, List.any_eq_true]
  constructor
  · rintro ⟨key, hkey, span, hspan, hholds⟩
    obtain ⟨v, hv, entry, hr, rfl⟩ := (hkeys key).1 hkey
    obtain ⟨callee, args, hw, hq⟩ := (hcalls span).1 hspan
    exact ⟨v, hv, entry, hr, span, callee, args, hw, hq, hholds⟩
  · rintro ⟨v, hv, entry, hr, span, callee, args, hw, hq, hholds⟩
    exact ⟨_, (hkeys _).2 ⟨v, hv, entry, hr, rfl⟩, span, (hcalls _).2 ⟨callee, args, hw, hq⟩, hholds⟩

/-- **All that a script asks for is apart exactly if no asking call stands in a key.** -/
theorem Names.spans_separate_iff (names : Names) {script : Script} {body : List Char} (hbody : script.Body body) :
    (names.spans script script.program.visits).Pairwise Span.Separate ↔
      names.nestedInKey script script.program.visits = false := by
  obtain ⟨hi, hlaid⟩ := hbody.laid
  have hform : ∀ {span callee args}, .call span callee args ∈ script.program.visits →
      (Node.call span callee args).Formed body := fun hv => hlaid.formed _ (List.mem_filterMap.2 ⟨_, hv, rfl⟩)
  have hcall : ∀ {v r}, r ∈ names.requests script v → ∃ span callee args, v = .call span callee args := by
    intro v r hr
    rcases names.requests_cases script v with hno | ⟨span, callee, args, rfl, -⟩
    · rw [hno] at hr
      cases hr
    · exact ⟨span, callee, args, rfl⟩
  rw [spans, List.pairwise_flatMap, ← Bool.not_eq_true, nestedInKey_iff]
  constructor
  · rintro ⟨-, hpairs⟩ ⟨v, hv, entry, hr, span, callee, args, hw, ⟨q, hq⟩, hholds⟩
    obtain ⟨span', callee', args', rfl⟩ := hcall hr
    have hne : Visit.call span' callee' args' ≠ .call span callee args := by
      intro heq
      cases heq
      have := ((names.spans_within hbody (hform hv) hr).1 entry.keySpan (by simp [Request.spans])).2.2
      simp only [Span.holds, Bool.and_eq_true, decide_eq_true_eq] at hholds
      omega
    have : Std.Symm fun v w => ∀ x ∈ (names.requests script v).flatMap Request.spans,
        ∀ y ∈ (names.requests script w).flatMap Request.spans, x.Separate y :=
      ⟨fun _ _ h x hx y hy => (h y hy x hx).symm⟩
    obtain ⟨y, hy⟩ : ∃ y, y ∈ q.spans := by cases q <;> exact ⟨_, List.mem_cons_self ..⟩
    refine names.not_separate_of_holds hbody (hform hw) hq hholds y hy ?_
    exact hpairs.forall hv hw hne _ (List.mem_flatMap.2 ⟨_, hr, by simp [Request.spans]⟩) _
      (List.mem_flatMap.2 ⟨_, hq, hy⟩)
  · intro hnot
    refine ⟨fun v hv => List.pairwise_flatMap.2 ⟨fun r hr => ?_, ?_⟩, ?_⟩
    · obtain ⟨span, callee, args, rfl⟩ := hcall hr
      exact (names.spans_within hbody (hform hv) hr).2
    · rcases names.requests_cases script v with hno | ⟨_, _, _, _, ⟨-, _, hone, -⟩ | ⟨_, hone, -⟩⟩
      · simp [hno]
      · simp [hone]
      · simp [hone]
    · refine (List.pairwise_filterMap.1 hlaid.apart).imp_of_mem fun {v w} hv hw hapart x hx y hy => ?_
      obtain ⟨r, hr, hxr⟩ := List.mem_flatMap.1 hx
      obtain ⟨q, hq, hyq⟩ := List.mem_flatMap.1 hy
      obtain ⟨span, callee, args, rfl⟩ := hcall hr
      obtain ⟨span', callee', args', rfl⟩ := hcall hq
      rcases names.separate_of_apart hbody (hform hv) hr (hform hw) hq (hapart _ rfl _ rfl) with
        hsep | ⟨entry, rfl, hholds⟩ | ⟨entry, rfl, hholds⟩
      · exact hsep x hxr y hyq
      · exact absurd ⟨_, hv, entry, hr, span', callee', args', hw, ⟨q, hq⟩, hholds⟩ hnot
      · exact absurd ⟨_, hw, entry, hq, span, callee, args, hv, ⟨r, hr⟩, hholds⟩ hnot

/-! ## Patches -/

/-- **What takes the place of an accepted call's key and message**: its number and `null`. -/
def Entry.stretches (entry : Entry) (number : Nat) : List Stretch :=
  [⟨entry.keySpan, (toString number).toList⟩, ⟨entry.messageSpan, "null".toList⟩]

/-- **What is put in place for load calls and accepted calls**: a reference to the file for each of the first, and for
the others their numbers, counted in the order given. -/
def stretchesFor (relative : Option (List Char)) (loads : List Span) (entries : List Entry) : List Stretch :=
  loads.map (⟨·, fileReference relative⟩) ++ entries.zipIdx.flatMap fun numbered => numbered.1.stretches numbered.2

/-- **The spans of a script that are to be replaced, and what takes their place.**  The accepted calls are numbered by
where they start. -/
def Names.stretches (names : Names) (script : Script) (relative : Option (List Char)) (visits : List Visit) :
    List Stretch :=
  stretchesFor relative (visits.filterMap (emptyLoad? script names.reads))
    ((names.sites script visits).filterMap Site.accepted?)

theorem takeSites_patches (script : Script) : ∀ (sites : List Site) (bundle : Bundle),
    (takeSites script sites bundle).1 = (((sites.filterMap Site.accepted?).zipIdx bundle.messages.length).flatMap
      fun numbered => numbered.1.stretches numbered.2).map script.patch
  | [], _ => rfl
  | ⟨start, .error flaw⟩ :: sites, bundle => takeSites_patches script sites bundle
  | ⟨start, .ok entry⟩ :: sites, bundle => by
    have hrest := takeSites_patches script sites (bundle.push entry.key entry.message)
    have hnext : (bundle.push entry.key entry.message).messages.length = bundle.messages.length + 1 := by
      simp [Bundle.push]
    rw [hnext] at hrest
    simp only [takeSites, hrest]
    rfl

theorem isLoader_nil (e : Expr) : isLoader [] e = false := by
  have hmember : ∀ (method : String) (e : Expr), isModuleMember [] method e = false := by
    intro method e
    cases e with
    | member _ object property => cases h : object.unparen <;> simp [isModuleMember, h]
    | _ => rfl
  cases e with
  | member span object property => exact hmember "loadMessageBundle" (.member span object property)
  | call _ callee _ => exact hmember "config" callee.unparen
  | _ => rfl

theorem isLoad_nil (e : Expr) : isLoad [] e = false := by
  cases e with
  | call => exact isLoader_nil _
  | _ => rfl

section Unimported

variable {moduleName : String} {visits : List Visit} (h : (Names.ofVisits moduleName visits).imported = [])

include h

theorem Names.bindings_eq_nil : (Names.ofVisits moduleName visits).bindings = [] := by
  have hreads : (Names.ofVisits moduleName visits).reads = [] := congrArg (importReads _) h
  refine List.flatMap_eq_nil_iff.2 fun v _ => ?_
  rw [show importReads _ _ = [] from hreads]
  unfold loadedBinding
  split
  · rw [isLoad_nil, if_neg (by simp)]
  · rfl

theorem Names.found_eq_nil (script : Script) : (Names.ofVisits moduleName visits).found script visits = [] := by
  have hreads : (Names.ofVisits moduleName visits).reads = [] := congrArg (importReads _) h
  have hdirect : visits.filterMap (directSite? script []) = [] := by
    refine List.filterMap_eq_nil_iff.2 fun v _ => ?_
    cases v <;> simp [directSite?, isLoad_nil]
  have hbound : visits.filterMap (boundSite? script (Names.ofVisits moduleName visits).res []) = [] := by
    refine List.filterMap_eq_nil_iff.2 fun v _ => ?_
    have hcallee : boundCallee? (Names.ofVisits moduleName visits).res [] v = none := by
      unfold boundCallee?
      split
      · split
        · rename_i id _
          cases (Names.ofVisits moduleName visits).res.readBy? id <;> simp
        · rfl
      · rfl
    cases v <;> simp [boundSite?, hcallee]
  rw [found, hreads, hdirect, bindings_eq_nil h, hbound, List.append_nil]

/-- **A script that does not import the module asks for nothing.** -/
theorem Names.stretches_eq_nil (script : Script) (relative : Option (List Char)) :
    (Names.ofVisits moduleName visits).stretches script relative visits = [] := by
  have hreads : (Names.ofVisits moduleName visits).reads = [] := congrArg (importReads _) h
  have hload : visits.filterMap (emptyLoad? script []) = [] := by
    refine List.filterMap_eq_nil_iff.2 fun v _ => ?_
    cases v <;> simp [emptyLoad?, isLoader_nil]
  simp [stretches, stretchesFor, sites, found_eq_nil h, sortSites, hreads, hload]

end Unimported

/-- **The patches of a script** are those of its stretches. -/
theorem analyze_patches (script : Script) (relative : Option (List Char)) (moduleName : String) :
    (analyze script relative moduleName).patches =
      ((Names.ofVisits moduleName script.program.visits).stretches script relative script.program.visits).map
        script.patch := by
  unfold analyze
  dsimp only
  split
  · rename_i himported
    rw [Names.stretches_eq_nil (List.isEmpty_iff.1 himported) script relative]
    rfl
  · simp only [Names.stretches, stretchesFor, List.map_append, List.map_map, takeSites_patches]
    rfl

/-- **The spans of an accepted call's key and message.** -/
def Entry.spans (entry : Entry) : List Span := [entry.keySpan, entry.messageSpan]

theorem filterMap_bind_flatMap {α β γ δ : Type} (l : List α) (f : α → Option β) (g : β → Option γ) (h : γ → List δ) :
    ((l.filterMap f).filterMap g).flatMap h = l.flatMap fun a => ((f a).bind g).toList.flatMap h := by
  rw [List.filterMap_filterMap]
  induction l with
  | nil => rfl
  | cons a l ih => cases hg : (f a).bind g <;> simp [hg, ih]

/-- **The stretches of a script have the spans that its calls ask for**, in some order. -/
theorem Names.stretches_spans (names : Names) (script : Script) (relative : Option (List Char)) (visits : List Visit) :
    ((names.stretches script relative visits).map (·.span)).Perm (names.spans script visits) := by
  have hnumbers : ∀ entries : List Entry,
      (entries.zipIdx.flatMap fun numbered => numbered.1.stretches numbered.2).map (·.span) =
        entries.flatMap Entry.spans := by
    intro entries
    rw [List.map_flatMap]
    conv_rhs => rw [← List.zipIdx_map_fst 0 entries, List.flatMap_map]
    rfl
  have hsites : ((names.sites script visits).filterMap Site.accepted?).Perm
      ((visits.filterMap (directSite? script names.reads)).filterMap Site.accepted? ++
        (visits.filterMap (boundSite? script names.res names.bindings)).filterMap Site.accepted?) := by
    rw [← List.filterMap_append]
    exact (List.mergeSort_perm ..).filterMap _
  have hspans : names.spans script visits = visits.flatMap fun v => (emptyLoad? script names.reads v).toList ++
      (((directSite? script names.reads v).bind Site.accepted?).toList.flatMap Entry.spans ++
        ((boundSite? script names.res names.bindings v).bind Site.accepted?).toList.flatMap Entry.spans) := by
    refine congrArg (visits.flatMap ·) (funext fun v => ?_)
    simp only [requests, List.flatMap_append, List.flatMap_map]
    congr 1
    cases emptyLoad? script names.reads v <;> rfl
  rw [stretches, stretchesFor, List.map_append, hnumbers, hspans, List.map_map]
  refine .trans (.append (.of_eq ?_) ((hsites.flatMap_right _).trans ?_)) (List.flatMap_append_perm visits _ _)
  · simp [List.filterMap_eq_flatMap_toList, Function.comp_def]
  · rw [List.flatMap_append, filterMap_bind_flatMap, filterMap_bind_flatMap]
    exact List.flatMap_append_perm visits _ _

theorem Names.cuts_stretches (names : Names) {script : Script} {body : List Char} (hbody : script.Body body)
    (relative : Option (List Char)) : ∀ s ∈ names.stretches script relative script.program.visits, script.Cuts s.span := by
  intro s hs
  have hmem := (names.stretches_spans script relative script.program.visits).subset (List.mem_map_of_mem hs)
  obtain ⟨v, hv, hr⟩ := List.mem_flatMap.1 hmem
  obtain ⟨r, hr, hspan⟩ := List.mem_flatMap.1 hr
  obtain ⟨hi, hlaid⟩ := hbody.laid
  rcases names.requests_cases script v with hno | ⟨span, callee, args, rfl, -⟩
  · rw [hno] at hr
    cases hr
  · have hform := hlaid.formed (.call span callee args) (List.mem_filterMap.2 ⟨_, hv, rfl⟩)
    exact ((names.spans_within hbody hform hr).1 _ hspan).1

/-- **The two ways in which the patches of a script can go**: all spans are replaced at once, or a call in a key makes
them overlap. -/
theorem apply_patches {file : String} {text : List Char} {script : Script} (hparse : Script.parse file text = .ok script)
    (relative : Option (List Char)) (moduleName : String) (map : Option SourceMap) :
    let visits := script.program.visits
    let names := Names.ofVisits moduleName visits
    (names.nestedInKey script visits = false ∧ ∃ d edits,
      (Document.ofText text map).apply (analyze script relative moduleName).patches = .ok d ∧
        edits.Perm ((names.stretches script relative visits).map script.byteEdit) ∧ Replaced 0 text edits d.text) ∨
    (names.nestedInKey script visits = true ∧
      ∃ a b, (Document.ofText text map).apply (analyze script relative moduleName).patches =
        .error (.overlapping a b)) := by
  obtain ⟨rfl, body, hbody⟩ := Script.body_of_parse hparse
  intro visits names
  have hsep : (names.stretches script relative visits).Pairwise (fun a b => a.span.Separate b.span) ↔
      names.nestedInKey script visits = false := by
    rw [← names.spans_separate_iff hbody,
      ← (names.stretches_spans script relative visits).pairwise_iff Span.Separate.symm, List.pairwise_map]
  rw [analyze_patches]
  rcases Script.apply_stretches (names.cuts_stretches hbody relative) map with ⟨hclear, happly⟩ | ⟨hnot, happly⟩
  · exact .inl ⟨hsep.1 hclear, happly⟩
  · exact .inr ⟨by simpa using mt hsep.2 hnot, happly⟩

end Calls

theorem Document.apply_nil (d : Document) : d.apply [] = .ok d := by
  simp [apply, sortPatches, refusal?, overlap?, edits]

theorem Calls.takeSites_flaws (script : Script) : ∀ (sites : List Calls.Site) (bundle : Bundle),
    (∀ site ∈ sites, site.accepted?.isSome = true) → (Calls.takeSites script sites bundle).2.1 = []
  | [], _, _ => rfl
  | ⟨start, .error flaw⟩ :: sites, bundle, h => by cases h _ List.mem_cons_self
  | ⟨start, .ok entry⟩ :: sites, bundle, h =>
    Calls.takeSites_flaws script sites _ fun site hsite => h site (List.mem_cons_of_mem _ hsite)

/-- **Nothing is wrong with a script** whose localize functions are only read to be called, each time acceptably. -/
theorem Calls.problems_eq_nil (script : Script) (relative : Option (List Char)) (moduleName : String)
    (hreads : (Calls.Names.ofVisits moduleName script.program.visits).strayReads script.program.visits = [])
    (hsites : ∀ site ∈ (Calls.Names.ofVisits moduleName script.program.visits).sites script script.program.visits,
      site.accepted?.isSome = true) : (Calls.analyze script relative moduleName).problems = [] := by
  unfold Calls.analyze
  dsimp only
  split
  · rfl
  · rw [hreads, Calls.takeSites_flaws script _ _ hsites]
    simp [Calls.sortProblems]

/-- **A script cannot be treated exactly if there is nothing wrong with it and its patches are refused.** -/
theorem extract_edit_error_iff {file : String} {text : List Char} {script : Script}
    (hparse : Script.parse file text = .ok script) (options : ExtractionOptions) :
    (∃ e, extract file text options = .error (.edit e)) ↔
      (Calls.analyze script options.relative options.moduleName).problems = [] ∧
        ∃ e, (Document.ofText text (options.sourceMap.bind SourceMap.decode)).apply
          (Calls.analyze script options.relative options.moduleName).patches = .error e := by
  simp only [extract, hparse]
  split
  · rename_i hproblems
    simp_all
  rename_i hproblems
  split
  · rename_i hpatches
    simp [List.isEmpty_iff.1 hpatches, Document.apply_nil]
  split
  · rename_i e he
    simp_all
  · rename_i d hd
    simp [hd]

/-- **A script is changed exactly if there is nothing wrong with it and its patches are applied.** -/
theorem extract_eq_extracted_iff {file : String} {text : List Char} {script : Script}
    (hparse : Script.parse file text = .ok script) (options : ExtractionOptions) (result : Extracted) :
    let analysis := Calls.analyze script options.relative options.moduleName
    extract file text options = .ok (.extracted result) ↔ analysis.problems = [] ∧ analysis.patches ≠ [] ∧
      ∃ d, (Document.ofText text (options.sourceMap.bind SourceMap.decode)).apply analysis.patches = .ok d ∧
        ⟨d.text, d.sourceMap.map SourceMap.encode, analysis.bundle⟩ = result := by
  intro analysis
  simp only [extract, hparse]
  split
  · rename_i hproblems
    simp_all [analysis]
  rename_i hproblems
  split
  · rename_i hpatches
    simp_all [analysis]
  rename_i hpatches
  split
  · rename_i e he
    simp [analysis, he]
  · rename_i d hd
    simp_all [analysis]

/-- **A script is changed where its calls ask for it, and nowhere else.**  The new text is the old one with the key of
each accepted call replaced by its number, its message by `null`, and the span between the parentheses of each load call
without arguments by the reference to the file, all at once. -/
theorem extract_replaces (file : String) (text : List Char) (options : ExtractionOptions) (result : Extracted)
    (h : extract file text options = .ok (.extracted result)) :
    ∃ script edits, Script.parse file text = .ok script ∧
      edits.Perm (((Calls.Names.ofVisits options.moduleName script.program.visits).stretches script options.relative
        script.program.visits).map script.byteEdit) ∧
      Replaced 0 text edits result.contents := by
  cases hparse : Script.parse file text with
  | error failure =>
    simp only [extract, hparse] at h
    cases h
  | ok script =>
    obtain ⟨-, -, d, hd, rfl⟩ := (extract_eq_extracted_iff hparse options result).1 h
    rcases Calls.apply_patches hparse options.relative options.moduleName (options.sourceMap.bind SourceMap.decode) with
      ⟨-, d', edits, hok, hperm, hreplaced⟩ | ⟨-, a, b, herror⟩
    · obtain rfl : d' = d := Except.ok.inj (hok.symm.trans hd)
      exact ⟨script, edits, rfl, hperm, hreplaced⟩
    · cases herror.symm.trans hd

/-- Two accepted calls, one of them with a key of four bytes behind a line break. -/
theorem extract_replaces_two :
    let text := "var n=require('m'),l=n.loadMessageBundle();l('a','A')\r\nl('😀','B')".toList
    ∃ result script edits, extract "a.js" text ⟨none, none, "m"⟩ = .ok (.extracted result) ∧
      Script.parse "a.js" text = .ok script ∧
      edits.Perm [⟨41, 41, "__filename".toList⟩, ⟨45, 48, ['0']⟩, ⟨49, 52, "null".toList⟩, ⟨57, 63, ['1']⟩,
        ⟨64, 67, "null".toList⟩] ∧
      Replaced 0 text edits result.contents := by
  intro text
  have hcheck : ∃ script, Script.parse "a.js" text = .ok script ∧
      let visits := script.program.visits
      let names := Calls.Names.ofVisits "m" visits
      names.strayReads visits = [] ∧ (∀ site ∈ names.found script visits, site.accepted?.isSome = true) ∧
      names.nestedInKey script visits = false ∧
      ((names.found script visits).Pairwise fun a b => Nat.ble a.start b.start = true) ∧
      (Calls.stretchesFor none (visits.filterMap (Calls.emptyLoad? script names.reads))
        ((names.found script visits).filterMap Calls.Site.accepted?)).map script.byteEdit =
          [⟨41, 41, "__filename".toList⟩, ⟨45, 48, ['0']⟩, ⟨49, 52, "null".toList⟩, ⟨57, 63, ['1']⟩,
            ⟨64, 67, "null".toList⟩] := by
    refine exists_of_check ?_
    decide +kernel
  obtain ⟨script, hparse, hreads, hsites, hclear, hsorted, hedits⟩ := hcheck
  have hsort : (Calls.Names.ofVisits "m" script.program.visits).sites script script.program.visits =
      (Calls.Names.ofVisits "m" script.program.visits).found script script.program.visits :=
    List.mergeSort_of_pairwise hsorted
  rw [← hsort] at hsites hedits
  change ((Calls.Names.ofVisits "m" script.program.visits).stretches script none script.program.visits).map _ = _ at hedits
  have hpatches : (Calls.analyze script none "m").patches ≠ [] := by
    rw [Calls.analyze_patches]
    intro hnil
    rw [List.map_eq_nil_iff.1 hnil] at hedits
    cases hedits
  rcases Calls.apply_patches hparse none "m" none with ⟨-, d, -, hok, -⟩ | ⟨hnested, -⟩
  · have hextract := (extract_eq_extracted_iff hparse ⟨none, none, "m"⟩ _).2
      ⟨Calls.problems_eq_nil script none "m" hreads hsites, hpatches, d, hok, rfl⟩
    obtain ⟨script', edits, hparse', hperm, hreplaced⟩ := extract_replaces "a.js" text ⟨none, none, "m"⟩ _ hextract
    obtain rfl : script' = script := Except.ok.inj (hparse'.symm.trans hparse)
    exact ⟨_, _, edits, hextract, hparse, hedits ▸ hperm, hreplaced⟩
  · cases hclear.symm.trans hnested

/-- **Patches are accepted exactly if no call that asks for something stands in the key of an accepted call.**  Without
such a call nothing overlaps or touches; with one, and nothing else to complain about, the script cannot be treated.
No patch is ever refused for another reason. -/
theorem patches_accepted_iff (file : String) (text : List Char) (script : Script)
    (hparse : Script.parse file text = .ok script) (options : ExtractionOptions) (map : Option SourceMap) :
    let analysis := Calls.analyze script options.relative options.moduleName
    let nested := (Calls.Names.ofVisits options.moduleName script.program.visits).nestedInKey script script.program.visits
    ((∃ d, (Document.ofText text map).apply analysis.patches = .ok d) ↔ nested = false) ∧
      (∀ e, (Document.ofText text map).apply analysis.patches = .error e → ∃ a b, e = .overlapping a b) ∧
      ((∃ e, extract file text options = .error (.edit e)) ↔ analysis.problems = [] ∧ nested = true) := by
  intro analysis nested
  have hways := Calls.apply_patches hparse options.relative options.moduleName
  refine ⟨?_, fun e he => ?_, ?_⟩
  · rcases hways map with ⟨hclear, d, -, hok, -⟩ | ⟨hnested, a, b, herror⟩
    · exact ⟨fun _ => hclear, fun _ => ⟨d, hok⟩⟩
    · exact ⟨fun ⟨d, hok⟩ => (by cases herror.symm.trans hok), fun h => (by cases hnested.symm.trans h)⟩
  · rcases hways map with ⟨-, d, -, hok, -⟩ | ⟨-, a, b, herror⟩
    · cases hok.symm.trans he
    · exact ⟨a, b, Except.error.inj (he.symm.trans herror)⟩
  · rw [extract_edit_error_iff hparse]
    refine and_congr_right fun _ => ?_
    rcases hways (options.sourceMap.bind SourceMap.decode) with ⟨hclear, d, -, hok, -⟩ | ⟨hnested, a, b, herror⟩
    · exact ⟨fun ⟨e, he⟩ => (by cases hok.symm.trans he), fun h => (by cases hclear.symm.trans h)⟩
    · exact ⟨fun _ => hnested, fun _ => ⟨_, herror⟩⟩

/-- A call in the key of another one: nothing is wrong with the script, and still it cannot be treated. -/
theorem patches_refused_nested :
    let text := "var n=require('m'),l=n.loadMessageBundle();l(\x7bkey:'a',x:l('b','B')\x7d,'A')".toList
    ∃ script, Script.parse "a.js" text = .ok script ∧ (Calls.analyze script none "m").problems = [] ∧
      (¬ ∃ d, (Document.ofText text none).apply (Calls.analyze script none "m").patches = .ok d) ∧
      ∃ e, extract "a.js" text ⟨none, none, "m"⟩ = .error (.edit e) := by
  intro text
  have hcheck : ∃ script, Script.parse "a.js" text = .ok script ∧
      let visits := script.program.visits
      let names := Calls.Names.ofVisits "m" visits
      names.strayReads visits = [] ∧ (∀ site ∈ names.found script visits, site.accepted?.isSome = true) ∧
      names.nestedInKey script visits = true := by
    refine exists_of_check ?_
    decide +kernel
  obtain ⟨script, hparse, hreads, hsites, hnested⟩ := hcheck
  obtain ⟨happly, -, hextract⟩ := patches_accepted_iff "a.js" text script hparse ⟨none, none, "m"⟩ none
  have hproblems : (Calls.analyze script none "m").problems = [] :=
    Calls.problems_eq_nil script none "m" hreads fun site hsite => hsites site (List.mem_mergeSort.1 hsite)
  refine ⟨script, hparse, hproblems, fun hok => ?_, hextract.2 ⟨hproblems, hnested⟩⟩
  cases (happly.1 hok).symm.trans hnested

end Localizer
