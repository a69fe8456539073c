import Localizer.Proofs.Bindings
/-!
# Recording — references written down along the walk

A `Record` is filled step by step: one table says what is declared at an offset, another what is read there, of several
entries the latest one counts, and a list holds the references.  Whether a name declares what it means is looked up in
the first table as it is when the walk comes to the name.  By then all scopes around the name have been entered, the
innermost one last, so the table knows (`Program.latest?_declarations`).  Hence the record is what the resolution says
(`Program.record_eq`), and its two views of the reads agree (`Program.reads_agree`).
-/
namespace Localizer

open Source

/-- **What the walk has written down.** -/
structure Record where
  /-- which binding the identifier at an offset declares, in the order of entry -/
  declared : List (Nat × Binding)
  /-- which binding the identifier at an offset reads, in the order of entry -/
  reads : List (Nat × Binding)
  references : List Reference

namespace Record

/-- **The latest entry of a table for an offset.** -/
def latest? (table : List (Nat × Binding)) (offset : Nat) : Option Binding :=
  (table.findRev? (·.1 == offset)).map (·.2)

/-- **What a reference adds.** -/
def add (r : Record) (ref : Reference) : Record where
  declared := r.declared
  reads := if ref.written then r.reads else r.reads ++ [(ref.span.lo, ref.binding)]
  references := r.references ++ [ref]

/-- **One step of the walk.**  A name that stands where its own binding is declared, as far as has been written down, is
no reference. -/
def note (r : Record) : Visit → Record
  | .scope scopes => { r with declared := r.declared ++ Resolution.declarationsOf scopes }
  | .name id written scopes =>
    match lookup scopes id.name with
    | some (binding, _) =>
      if latest? r.declared id.span.lo = some binding then r else r.add ⟨binding, id.span, written⟩
    | none => r
  | _ => r

/-- **The record of a walk.** -/
def ofVisits (visits : List Visit) : Record := visits.foldl note ⟨[], [], []⟩

/-- **A resolution as a record.** -/
def ofResolution (res : Resolution) : Record where
  declared := res.declarations
  reads := (res.references.filter fun ref => !ref.written).map fun ref => (ref.span.lo, ref.binding)
  references := res.references

/-! ## Tables -/

section Tables

variable {table more : List (Nat × Binding)} {offset : Nat} {b : Binding}

theorem mem_of_latest? (h : latest? table offset = some b) : (offset, b) ∈ table := by
  obtain ⟨entry, hfound, rfl⟩ := Option.map_eq_some_iff.1 h
  rw [List.findRev?_eq_find?_reverse] at hfound
  have hoffset := List.find?_some hfound
  rw [beq_iff_eq] at hoffset
  rw [← hoffset]
  exact List.mem_reverse.1 (List.mem_of_find?_eq_some hfound)

theorem latest?_append : latest? (table ++ more) offset = (latest? more offset).or (latest? table offset) := by
  simp only [latest?, List.findRev?_eq_find?_reverse, List.reverse_append, List.find?_append]
  cases more.reverse.find? (·.1 == offset) <;> rfl

theorem latest?_eq_none (h : ∀ b, (offset, b) ∉ table) : latest? table offset = none := by
  cases hlatest : latest? table offset with
  | none => rfl
  | some b => exact absurd (mem_of_latest? hlatest) (h b)

/-- **An offset with one binding only** has it as its latest entry. -/
theorem latest?_eq_some (h : (offset, b) ∈ table) (hone : ∀ b', (offset, b') ∈ table → b' = b) :
    latest? table offset = some b := by
  cases hlatest : latest? table offset with
  | some b' => rw [hone b' (mem_of_latest? hlatest)]
  | none =>
    rw [latest?, Option.map_eq_none_iff, List.findRev?_eq_find?_reverse, List.find?_eq_none] at hlatest
    exact absurd (beq_self_eq_true offset) (hlatest _ (List.mem_reverse.2 h))

end Tables

section Steps

variable {before : List Visit} {id : Ident} {written : Bool} {scopes : List Scope}

theorem note_unbound (r : Record) (h : lookup scopes id.name = none) : r.note (.name id written scopes) = r := by
  simp only [note, h]

theorem note_bound (r : Record) {b : Binding} {found : Scope} (h : lookup scopes id.name = some (b, found)) :
    r.note (.name id written scopes) =
      if latest? r.declared id.span.lo = some b then r else r.add ⟨b, id.span, written⟩ := by
  simp only [note, h]

theorem ofResolution_reference {ref : Reference} (h : Reference.of? id written scopes = some ref) :
    ofResolution (.ofVisits (before ++ [.name id written scopes])) = (ofResolution (.ofVisits before)).add ref := by
  cases hwritten : ref.written <;> simp [ofResolution, Resolution.ofVisits, add, h, hwritten]

theorem ofResolution_plain (h : Reference.of? id written scopes = none) :
    ofResolution (.ofVisits (before ++ [.name id written scopes])) = ofResolution (.ofVisits before) := by
  simp [ofResolution, Resolution.ofVisits, h]

end Steps

end Record

/-! ## The walk up to a name -/

theorem flatMap_split {α β : Type} {f : α → List β} {xs : List α} {before after : List β} {v : β}
    (h : xs.flatMap f = before ++ v :: after) :
    ∃ front x back b a, xs = front ++ x :: back ∧ f x = b ++ v :: a ∧ before = front.flatMap f ++ b := by
  induction xs generalizing before with
  | nil => simp at h
  | cons x xs ih =>
    rw [List.flatMap_cons] at h
    have hrest : ∀ {rest : List β}, xs.flatMap f = rest ++ v :: after → before = f x ++ rest →
        ∃ front y back b a, x :: xs = front ++ y :: back ∧ f y = b ++ v :: a ∧ before = front.flatMap f ++ b := by
      rintro rest hxs rfl
      obtain ⟨front, y, back, b, a, rfl, hy, rfl⟩ := ih hxs
      exact ⟨x :: front, y, back, b, a, rfl, hy, by simp⟩
    rcases List.append_eq_append_iff.1 h with ⟨rest, hbefore, hxs⟩ | ⟨rest, hx, hxs⟩
    · exact hrest hxs hbefore
    · cases rest with
      | nil =>
        have hnext : xs.flatMap f = [] ++ v :: after := hxs.symm
        exact hrest hnext (by simp [hx])
      | cons w rest =>
        obtain ⟨rfl, -⟩ := List.cons.inj hxs
        exact ⟨[], x, xs, before, rest, rfl, hx, rfl⟩

theorem Part.Lists.mem_front {part : Part} {front back : List Address} {place above : Address}
    (h : part.Lists (front ++ place :: back)) (hmem : (part.at? above).isSome) (habove : above <+: place)
    (hne : above ≠ place) : above ∈ front := by
  rcases List.mem_append.1 ((h.mem_iff above).2 hmem) with hfront | hback
  · exact hfront
  rcases List.mem_cons.1 hback with heq | hback
  · exact absurd heq hne
  · exact absurd habove (List.rel_of_pairwise_cons (List.pairwise_append.1 h.ordered).2.1 hback)

theorem Part.Names.own_eq {part : Part} {id : Ident} {written : Bool} (h : part.Names id written)
    (scopes : List Scope) : part.own scopes = [.name id written scopes] := by
  cases h <;> rfl

theorem Part.Names.not_declares {part : Part} {id other : Ident} {written : Bool} (h : part.Names id written) :
    ¬ part.Declares other := by
  intro hdeclares
  obtain ⟨scope, hscope, -⟩ := hdeclares.scope
  cases h <;> cases hscope

namespace Source.Program

variable {p : Program} {place scope : Address} {id : Ident} {written : Bool} {scopes : List Scope}
  {before after : List Visit}

/-- **When the walk comes to a name**, it has been to the places before the name's own. -/
theorem exists_front (h : p.visits = before ++ .name id written scopes :: after) :
    ∃ front place back, (Part.script p).Lists (front ++ place :: back) ∧ p.Names place id written ∧
      scopes = p.scopesAt place ∧ before = front.flatMap ((Part.script p).ownAt []) := by
  obtain ⟨places, hplaces⟩ := Part.exists_places (.script p)
  have hvisits : places.flatMap ((Part.script p).ownAt []) = before ++ .name id written scopes :: after :=
    (hplaces.visits_eq []).symm.trans h
  obtain ⟨front, place, back, b, a, rfl, hown, rfl⟩ := flatMap_split hvisits
  obtain ⟨part, hpart⟩ := Option.isSome_iff_exists.1 ((hplaces.mem_iff place).1 (by simp))
  have hown' : part.own (p.scopesAt place) = b ++ .name id written scopes :: a := by
    rw [← hown, Part.ownAt, hpart]
    rfl
  obtain ⟨rfl, hname⟩ := Part.mem_own_name.1 (hown' ▸ List.mem_append_right b List.mem_cons_self)
  -- a part that is a name is nothing else for the walk
  rw [hname.own_eq] at hown'
  obtain rfl : b = [] := by
    cases b with
    | nil => rfl
    | cons v b => simp at hown'
  exact ⟨front, place, back, hplaces, ⟨part, hpart, hname⟩, rfl, List.append_nil _⟩

/-- **Only scopes around a name declare its identifier.** -/
theorem Names.above (hp : p.Apart) (h : p.Names place id written) (hscope : p.Declares scope id) : scope <+: place := by
  have hself : ¬ (Node.name id).Apart (.name id) := fun hapart => hp.lo_ne h.mem_nodes h.mem_nodes hapart rfl
  obtain ⟨part, hpart, hname⟩ := h
  obtain ⟨outer, houter, hid⟩ := hscope
  rcases Part.apart hp.nodes hpart houter hname.mem_nodes hid.mem_nodes with hbelow | habove | hapart
  · by_cases heq : place = scope
    · subst heq
      exact List.prefix_rfl
    · exact absurd (Part.apart_below hp.nodes hbelow heq hpart houter hname.mem_heads hid.mem_nodes) hself
  · exact habove
  · exact absurd hapart hself

/-- **An entry at the offset of a name** is one of its identifier. -/
theorem Names.of_entry (hp : p.Apart) (h : p.Names place id written) {b : Binding}
    (hentry : (id.span.lo, b) ∈ (Resolution.ofVisits ((Part.script p).ownAt [] scope)).declarations) :
    p.Declares scope id ∧ b = p.binding scope id.name := by
  obtain ⟨id', hid', heq⟩ := mem_declarations_ownAt.1 hentry
  obtain ⟨hlo, rfl⟩ := Prod.mk.inj heq
  obtain rfl : id = id' := hp.eq_of_lo h.mem_nodes hid'.mem_nodes hlo
  exact ⟨hid', rfl⟩

theorem Names.ne_of_declares (h : p.Names place id written) (hscope : p.Declares scope id) : scope ≠ place := by
  rintro rfl
  obtain ⟨part, hpart, hname⟩ := h
  obtain ⟨part', hpart', hid⟩ := hscope
  obtain rfl : part = part' := Option.some.inj (hpart.symm.trans hpart')
  exact hname.not_declares hid

/-- **Of all scopes that declare the identifier of a name**, the innermost one is entered last. -/
theorem Names.latest?_innermost (hp : p.Apart) {front back : List Address}
    (hplaces : (Part.script p).Lists (front ++ place :: back)) (h : p.Names place id written)
    (hscope : p.Innermost place id.name scope) (hid : p.Declares scope id) :
    Record.latest? (Resolution.ofVisits (front.flatMap ((Part.script p).ownAt []))).declarations id.span.lo =
      some (p.binding scope id.name) := by
  have hmem : scope ∈ front := by
    have ⟨part, hpart, _⟩ := hid
    exact hplaces.mem_front (Option.isSome_iff_exists.2 ⟨part, hpart⟩) hscope.around (h.ne_of_declares hid)
  obtain ⟨outer, inner, rfl⟩ := List.append_of_mem hmem
  -- a scope entered later would have to stand around the innermost one
  have hinner : Record.latest? (inner.flatMap fun place =>
      (Resolution.ofVisits ((Part.script p).ownAt [] place)).declarations) id.span.lo = none := by
    refine Record.latest?_eq_none fun b hb => ?_
    obtain ⟨other, hother, hentry⟩ := List.mem_flatMap.1 hb
    have hdeclared := (h.of_entry hp hentry).1
    have habove : other <+: scope := hscope.last other (h.above hp hdeclared) ⟨id, hdeclared, rfl⟩
    have hfront := (List.pairwise_append.1 hplaces.ordered).1
    exact List.rel_of_pairwise_cons (List.pairwise_append.1 hfront).2.1 hother habove
  have hhere : Record.latest? (Resolution.ofVisits ((Part.script p).ownAt [] scope)).declarations id.span.lo =
      some (p.binding scope id.name) :=
    Record.latest?_eq_some (mem_declarations_ownAt.2 ⟨id, hid, rfl⟩) fun b hb => (h.of_entry hp hb).2
  rw [declarations_flatMap, List.flatMap_append, List.flatMap_cons, Record.latest?_append, Record.latest?_append,
    hinner, hhere]
  rfl

/-- **At a name the table of declarations knows** whether the scope that the name means declares it there. -/
theorem latest?_declarations (hp : p.Apart) (h : p.visits = before ++ .name id written scopes :: after) {b : Binding}
    {found : Scope} (hlookup : lookup scopes id.name = some (b, found)) :
    Record.latest? (Resolution.ofVisits before).declarations id.span.lo = some b ↔
      found.declaresAt id.span.lo = true := by
  obtain ⟨front, place, back, hplaces, hname, rfl, rfl⟩ := exists_front h
  obtain ⟨scope, hscope, rfl, hdeclares⟩ := hname.lookup_innermost hp hlookup
  rw [hdeclares]
  constructor
  · intro hlatest
    have hmem := Record.mem_of_latest? hlatest
    rw [declarations_flatMap] at hmem
    obtain ⟨other, -, hentry⟩ := List.mem_flatMap.1 hmem
    obtain ⟨hother, hbinding⟩ := hname.of_entry hp hentry
    rwa [binding_inj hp hscope.declares ⟨id, hother, rfl⟩ hbinding]
  · exact hname.latest?_innermost hp hplaces hscope

/-- **One step of the walk** writes down what the resolution has more. -/
theorem note_eq (hp : p.Apart) {v : Visit} (h : p.visits = before ++ v :: after) :
    (Record.ofResolution (.ofVisits before)).note v = .ofResolution (.ofVisits (before ++ [v])) := by
  cases v with
  | scope scopes => simp [Record.note, Record.ofResolution, Resolution.ofVisits]
  | call | declarator | imports => simp [Record.note, Record.ofResolution, Resolution.ofVisits]
  | name id written scopes =>
    cases hlookup : lookup scopes id.name with
    | none => rw [Record.note_unbound _ hlookup, Record.ofResolution_plain (by simp [Reference.of?, hlookup])]
    | some entry =>
      obtain ⟨b, found⟩ := entry
      have hlatest := latest?_declarations hp h hlookup
      rw [Record.note_bound _ hlookup]
      by_cases hdeclared : found.declaresAt id.span.lo = true
      · have hnone : Reference.of? id written scopes = none := by simp [Reference.of?, hlookup, hdeclared]
        rw [Record.ofResolution_plain hnone]
        exact if_pos (hlatest.2 hdeclared)
      · have href : Reference.of? id written scopes = some ⟨b, id.span, written⟩ := by
          simp [Reference.of?, hlookup, hdeclared]
        rw [Record.ofResolution_reference href]
        exact if_neg fun hsome => hdeclared (hlatest.1 hsome)

/-- **The record of a walk is what the resolution says.** -/
theorem record_eq (hp : p.Apart) : Record.ofVisits p.visits = .ofResolution p.resolution := by
  have hrun : ∀ before after, p.visits = before ++ after →
      before.foldl Record.note ⟨[], [], []⟩ = .ofResolution (.ofVisits before) := by
    intro before
    induction before using List.reverseRecOn with
    | nil => exact fun _ _ => rfl
    | append_singleton before v ih =>
      intro after h
      rw [List.append_assoc] at h
      rw [List.foldl_append, ih _ h]
      exact note_eq hp h
  exact hrun p.visits [] (List.append_nil _).symm

/-! ## The two views of the reads -/

theorem mem_readsOf {b : Binding} {ref : Reference} :
    ref ∈ p.resolution.readsOf b ↔ ref ∈ p.resolution.references ∧ ref.binding = b ∧ ref.written = false := by
  rw [Resolution.readsOf, List.mem_filter, Bool.and_eq_true, beq_iff_eq, Bool.not_eq_true']

theorem readBy?_iff_readsOf (hp : p.Apart) {b : Binding} :
    p.resolution.readBy? id = some b ↔ ∃ ref ∈ p.resolution.readsOf b, ref.span.lo = id.span.lo := by
  simp only [readBy?_iff hp, mem_readsOf]
  constructor
  · rintro ⟨ref, href, hread, hlo, hb⟩
    exact ⟨ref, ⟨href, hb, hread⟩, hlo⟩
  · rintro ⟨ref, ⟨href, hb, hread⟩, hlo⟩
    exact ⟨ref, href, hread, hlo, hb⟩

/-- **The table of reads** says of an offset what the list of references says. -/
theorem latest?_reads (hp : p.Apart) (id : Ident) :
    Record.latest? (Record.ofResolution p.resolution).reads id.span.lo = p.resolution.readBy? id := by
  have hmem : ∀ b, (id.span.lo, b) ∈ (Record.ofResolution p.resolution).reads ↔ p.resolution.readBy? id = some b := by
    intro b
    rw [readBy?_iff hp, Record.ofResolution, List.mem_map]
    simp only [List.mem_filter, Bool.not_eq_true', Prod.mk.injEq]
    constructor
    · rintro ⟨ref, ⟨href, hread⟩, hlo, hb⟩
      exact ⟨ref, href, hread, hlo, hb⟩
    · rintro ⟨ref, href, hread, hlo, hb⟩
      exact ⟨ref, ⟨href, hread⟩, hlo, hb⟩
  cases hread : p.resolution.readBy? id with
  | none =>
    refine Record.latest?_eq_none fun b hb => ?_
    cases hread.symm.trans ((hmem b).1 hb)
  | some b =>
    refine Record.latest?_eq_some ((hmem b).2 hread) fun b' hb' => ?_
    exact Option.some.inj (((hmem b').1 hb').symm.trans hread)

/-- **No identifier both refers to a binding and declares it.** -/
theorem not_declared_of_reference (hp : p.Apart) {ref : Reference} (h : ref ∈ p.resolution.references) :
    (ref.span.lo, ref.binding) ∉ p.resolution.declarations := by
  obtain ⟨place, id, written, scope, hname, hscope, hnot, rfl⟩ := (mem_references hp).1 h
  intro hmem
  obtain ⟨other, id', hid', heq⟩ := mem_declarations.1 hmem
  obtain ⟨hlo, hbinding⟩ := Prod.mk.inj heq
  obtain rfl : id = id' := hp.eq_of_lo hname.mem_nodes hid'.mem_nodes hlo
  obtain rfl := binding_inj hp hscope.declares ⟨id, hid', rfl⟩ hbinding
  exact hnot hid'

/-- **The two views of the reads agree.**  The tables and the list that the walk fills step by step are those of the
resolution.  A binding is read at an offset exactly if one of the references that read it stands there, no two references
stand at one offset, and where a binding is read it is not declared, not even by an entry that a later one replaced. -/
theorem reads_agree {dialect : Dialect} {text : List Char} {p : Program} (h : Program.read dialect text = .ok p) :
    ((Record.ofVisits p.visits).references = p.resolution.references ∧
      ∀ id : Ident, Record.latest? (Record.ofVisits p.visits).reads id.span.lo = p.resolution.readBy? id ∧
        Record.latest? (Record.ofVisits p.visits).declared id.span.lo = p.resolution.declaredBy? id) ∧
    (∀ (id : Ident) (b : Binding), p.resolution.readBy? id = some b ↔
      ∃ ref ∈ p.resolution.readsOf b, ref.span.lo = id.span.lo) ∧
    (p.resolution.references.map (·.span.lo)).Nodup ∧
    ∀ (id : Ident) (b : Binding), p.resolution.readBy? id = some b →
      p.resolution.declaredBy? id ≠ some b ∧ (id.span.lo, b) ∉ p.resolution.declarations := by
  have hp := apart_of_read h
  refine ⟨?_, fun id b => readBy?_iff_readsOf hp, List.pairwise_map.2 hp.references_nodup, fun id b hread => ?_⟩
  · rw [record_eq hp]
    exact ⟨rfl, fun id => ⟨latest?_reads hp id, rfl⟩⟩
  · obtain ⟨ref, href, hlo⟩ := (readBy?_iff_readsOf hp).1 hread
    obtain ⟨hmem, rfl, -⟩ := mem_readsOf.1 href
    have hnot := not_declared_of_reference hp hmem
    rw [hlo] at hnot
    exact ⟨fun hdeclared => hnot (Record.mem_of_latest? hdeclared), hnot⟩

/-- The name of a function that is exported by default is declared twice at one offset, and read inside. -/
theorem reads_agree_default : ∃ p f,
    Program.read ⟨false, false⟩ "export default function f(a)\x7bf(a)\x7d".toList = .ok p ∧
      (24, ⟨"f", ⟨24, 25⟩, 0⟩) ∈ p.resolution.declarations ∧ f = ⟨"f", ⟨24, 25⟩, 1⟩ ∧
      p.resolution.declaredBy? ⟨"f", ⟨24, 25⟩⟩ = some f ∧ p.resolution.readBy? ⟨"f", ⟨29, 30⟩⟩ = some f ∧
      Record.latest? (Record.ofVisits p.visits).reads 29 = some f ∧
      Record.latest? (Record.ofVisits p.visits).declared 24 = some f ∧
      (∃ ref ∈ p.resolution.readsOf f, ref.span.lo = 29) ∧ (p.resolution.references.map (·.span.lo)).Nodup ∧
      p.resolution.declaredBy? ⟨"f", ⟨29, 30⟩⟩ ≠ some f := by
  have hcheck : ∃ p, Program.read ⟨false, false⟩ "export default function f(a)\x7bf(a)\x7d".toList = .ok p ∧
      (24, ⟨"f", ⟨24, 25⟩, 0⟩) ∈ p.resolution.declarations ∧
      p.resolution.declaredBy? ⟨"f", ⟨24, 25⟩⟩ = some ⟨"f", ⟨24, 25⟩, 1⟩ ∧
      p.resolution.readBy? ⟨"f", ⟨29, 30⟩⟩ = some ⟨"f", ⟨24, 25⟩, 1⟩ := by
    refine exists_of_check ?_
    decide +kernel
  obtain ⟨p, hread, houter, hdeclared, hf⟩ := hcheck
  obtain ⟨⟨-, htables⟩, hviews, hnodup, hnot⟩ := reads_agree hread
  exact ⟨p, _, hread, houter, rfl, hdeclared, hf, (htables ⟨"f", ⟨29, 30⟩⟩).1.trans hf,
    (htables ⟨"f", ⟨24, 25⟩⟩).2.trans hdeclared, (hviews _ _).1 hf, hnodup, (hnot _ _ hf).1⟩

end Source.Program

end Localizer
