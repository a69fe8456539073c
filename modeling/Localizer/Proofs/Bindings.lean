import Mathlib.Data.List.Induction
import Mathlib.Data.List.Pairwise
import Localizer.Scope.Resolution
import Localizer.Proofs.Declared
import Localizer.Proofs.Reading.Statements
/-!
# Bindings — what the names of a script mean

A name means the innermost scope around it that declares the name (`Program.resolution_innermost`).  A binding is told
by its name, its first identifier and its depth; this tells the scopes of a script apart, since of two scopes with one
depth neither is inside the other, and then their identifiers stand at different places of the text
(`Program.binding_inj`).
-/
namespace Localizer

open Source

namespace Source.Program

variable {p : Program} {place scope scope' : Address} {name : String} {id : Ident}

/-! ## Scopes around a place -/

def at? (p : Program) (place : Address) : Option Part := (Part.script p).at? place

def scopesAt (p : Program) (place : Address) : List Scope := (Part.script p).scopesAt [] place

/-- **A name occurs at a place**, read or written. -/
def Names (p : Program) (place : Address) (id : Ident) (written : Bool) : Prop :=
  ∃ part, p.at? place = some part ∧ part.Names id written

/-- **The scope at a place declares an identifier.** -/
def Declares (p : Program) (scope : Address) (id : Ident) : Prop := ∃ part, p.at? scope = some part ∧ part.Declares id

/-- **The scope at a place declares a name.** -/
def DeclaresName (p : Program) (scope : Address) (name : String) : Prop := ∃ id, p.Declares scope id ∧ id.name = name

/-- **Of the scopes around a place that declare a name, this one is innermost.** -/
structure Innermost (p : Program) (place : Address) (name : String) (scope : Address) : Prop where
  around : scope <+: place
  declares : p.DeclaresName scope name
  last : ∀ other, other <+: place → p.DeclaresName other name → other <+: scope

theorem Innermost.unique (h : p.Innermost place name scope) (h' : p.Innermost place name scope') : scope = scope' :=
  (h'.last scope h.around h.declares).eq_of_length_le (h.last scope' h'.around h'.declares).length_le

/-- **The binding of a name in the scope at a place.** -/
def binding (p : Program) (scope : Address) (name : String) : Binding :=
  ((lookup (p.scopesAt scope) name).map (·.1)).getD default

end Source.Program

/-! ## Looking a name up -/

section Lookup

variable {part : Part} {scopes : List Scope} {name : String}

theorem lookup_of_declares {id : Ident} (h : part.Declares id) (hname : id.name = name) :
    ∃ first scope, part.Declares first ∧ first.name = name ∧ part.scope? = some scope ∧
      lookup (part.within scopes) name = some (⟨name, first.span, scopes.length⟩, scope) := by
  obtain ⟨scope, hscope, hid⟩ := h.scope
  have hfound : (scope.find? (·.name == name)).isSome := List.find?_isSome.2 ⟨id, hid, beq_iff_eq.2 hname⟩
  obtain ⟨first, hfirst⟩ := Option.isSome_iff_exists.1 hfound
  refine ⟨first, scope, (Part.mem_scope hscope).1 (List.mem_of_find?_eq_some hfirst), ?_, hscope, ?_⟩
  · simpa using List.find?_some hfirst
  · simp [Part.within, hscope, lookup, hfirst]

theorem lookup_of_not_declares (h : ∀ id, part.Declares id → id.name ≠ name) :
    lookup (part.within scopes) name = lookup scopes name := by
  unfold Part.within
  cases hscope : part.scope? with
  | none => rfl
  | some scope =>
    have hnone : scope.find? (·.name == name) = none := by
      rw [List.find?_eq_none]
      intro id hid hname
      exact h id ((Part.mem_scope hscope).1 hid) (beq_iff_eq.1 hname)
    simp [lookup, hnone]

end Lookup

namespace Source.Program

variable {p : Program} {place scope scope' : Address} {name : String} {id : Ident} {part : Part}

theorem scopesAt_concat {i : Nat} (h : p.at? (place ++ [i]) = some part) :
    (∃ above, p.at? place = some above) ∧ p.scopesAt (place ++ [i]) = part.within (p.scopesAt place) := by
  rw [at?, Part.at?_append] at h
  obtain ⟨above, habove, h⟩ := Option.bind_eq_some_iff.1 h
  obtain ⟨found, hi, h⟩ := Option.bind_eq_some_iff.1 h
  cases h
  refine ⟨⟨above, habove⟩, ?_⟩
  unfold scopesAt
  rw [Part.scopesAt_append habove, hi]
  rfl

theorem exists_within (h : p.at? place = some part) : ∃ outer, p.scopesAt place = part.within outer := by
  induction place using List.reverseRecOn with
  | nil =>
    cases h
    exact ⟨[], rfl⟩
  | append_singleton above i => exact ⟨_, (scopesAt_concat h).2⟩

/-- **The scopes at a place are searched from the inside out.** -/
theorem lookup_scopesAt (h : p.at? place = some part) (name : String) :
    (∃ scope, p.Innermost place name scope ∧ lookup (p.scopesAt place) name = lookup (p.scopesAt scope) name) ∨
      (∀ scope, scope <+: place → ¬ p.DeclaresName scope name) ∧ lookup (p.scopesAt place) name = none := by
  -- along the place, from the script down: the last part either declares the name or is passed over
  induction place using List.reverseRecOn generalizing part with
  | nil =>
    by_cases hname : p.DeclaresName [] name
    · exact .inl ⟨[], ⟨List.prefix_rfl, hname, fun _ h _ => h⟩, rfl⟩
    · refine .inr ⟨fun scope hscope => ?_, ?_⟩
      · rwa [List.prefix_nil.1 hscope]
      · cases h
        exact lookup_of_not_declares fun id hid heq => hname ⟨id, ⟨_, rfl, hid⟩, heq⟩
  | append_singleton place i ih =>
    obtain ⟨⟨above, habove⟩, hscopes⟩ := scopesAt_concat h
    by_cases hname : p.DeclaresName (place ++ [i]) name
    · exact .inl ⟨place ++ [i], ⟨List.prefix_rfl, hname, fun _ h _ => h⟩, rfl⟩
    have hpass : lookup (p.scopesAt (place ++ [i])) name = lookup (p.scopesAt place) name := by
      rw [hscopes]
      exact lookup_of_not_declares fun id hid heq => hname ⟨id, ⟨_, h, hid⟩, heq⟩
    have hup : ∀ other, other <+: place ++ [i] → p.DeclaresName other name → other <+: place := by
      intro other hother hdeclares
      rcases List.prefix_concat_iff.1 hother with rfl | hother
      · exact absurd hdeclares hname
      · exact hother
    rw [hpass]
    rcases ih habove with ⟨scope, hscope, heq⟩ | ⟨hnone, heq⟩
    · refine .inl ⟨scope, ⟨hscope.around.trans (List.prefix_append ..), hscope.declares, ?_⟩, heq⟩
      exact fun other hother hdeclares => hscope.last other (hup other hother hdeclares) hdeclares
    · refine .inr ⟨fun scope hscope hdeclares => ?_, heq⟩
      exact hnone scope (hup scope hscope hdeclares) hdeclares

/-! ## Bindings and their scopes -/

/-- **Where a scope declares a name**, the binding of the name there is what the search finds. -/
theorem lookup_binding (h : p.DeclaresName scope name) : ∃ part found first depth,
    p.at? scope = some part ∧ part.scope? = some found ∧ part.Declares first ∧ (p.scopesAt scope).length = depth + 1 ∧
      p.binding scope name = ⟨name, first.span, depth⟩ ∧
      lookup (p.scopesAt scope) name = some (p.binding scope name, found) := by
  obtain ⟨id, ⟨part, hpart, hid⟩, hname⟩ := h
  obtain ⟨outer, houter⟩ := exists_within hpart
  obtain ⟨first, found, hfirst, -, hfound, hlookup⟩ := lookup_of_declares hid hname
  rw [← houter] at hlookup
  have hlength : (p.scopesAt scope).length = outer.length + 1 := by simp [houter, Part.within, hfound]
  have hbinding : p.binding scope name = ⟨name, first.span, outer.length⟩ := by simp [binding, hlookup]
  exact ⟨part, found, first, outer.length, hpart, hfound, hfirst, hlength, hbinding, by rw [hlookup, hbinding]⟩

theorem binding_name (h : p.DeclaresName scope name) : (p.binding scope name).name = name := by
  obtain ⟨-, -, first, depth, -, -, -, -, hbinding, -⟩ := lookup_binding h
  rw [hbinding]

theorem length_scopesAt_lt (hbelow : scope <+: scope') (hne : scope ≠ scope') (h : p.DeclaresName scope' name) :
    (p.scopesAt scope).length < (p.scopesAt scope').length := by
  obtain ⟨rest, rfl⟩ := hbelow
  cases rest with
  | nil => exact absurd (List.append_nil scope).symm hne
  | cons i rest =>
  obtain ⟨id, ⟨part, hpart, hid⟩, -⟩ := h
  obtain ⟨found, hfound, -⟩ := hid.scope
  rw [at?, Part.at?_append] at hpart
  obtain ⟨above, habove, hpart⟩ := Option.bind_eq_some_iff.1 hpart
  obtain ⟨next, hi, hpart⟩ := Option.bind_eq_some_iff.1 hpart
  have hlength := Part.length_scopesAt hpart (p.scopesAt scope)
  rw [hfound, Option.toList_some, List.length_singleton] at hlength
  have hscopes : p.scopesAt (scope ++ i :: rest) = next.scopesAt (p.scopesAt scope) rest := by
    unfold scopesAt
    rw [Part.scopesAt_append habove, hi]
  rw [hscopes]
  exact hlength

/-- **The nodes of a script stand apart**, and its names are not empty. -/
structure Apart (p : Program) : Prop where
  nodes : (Part.script p).nodes.Pairwise Node.Apart
  names : ∀ id, .name id ∈ (Part.script p).nodes → id.span.lo < id.span.hi

theorem Apart.of_laid {whole : List Char} {lo hi : Nat} (h : Laid whole lo hi p.nodes) : p.Apart :=
  ⟨h.apart, fun _ hid => h.formed _ hid⟩

theorem apart_of_read {dialect : Dialect} {text : List Char} (h : Program.read dialect text = .ok p) : p.Apart := by
  obtain ⟨hi, hlaid⟩ := laid_of_read h
  exact .of_laid hlaid

theorem Apart.lo_ne (hp : p.Apart) {id' : Ident} (hid : .name id ∈ (Part.script p).nodes)
    (hid' : .name id' ∈ (Part.script p).nodes) (h : (Node.name id).Apart (.name id')) : id.span.lo ≠ id'.span.lo := by
  have hlt := hp.names id hid
  have hlt' := hp.names id' hid'
  rcases h with h | h | h | h
  · change id.span.hi ≤ id'.span.lo at h
    omega
  · change id'.span.hi ≤ id.span.lo at h
    omega
  · exact h.elim
  · exact h.elim

/-- **Different scopes give a name different bindings.** -/
theorem binding_inj (hp : p.Apart) (h : p.DeclaresName scope name) (h' : p.DeclaresName scope' name)
    (heq : p.binding scope name = p.binding scope' name) : scope = scope' := by
  obtain ⟨part, -, first, depth, hpart, -, hfirst, hlength, hbinding, -⟩ := lookup_binding h
  obtain ⟨part', -, first', depth', hpart', -, hfirst', hlength', hbinding', -⟩ := lookup_binding h'
  rw [hbinding, hbinding'] at heq
  injection heq with _ hspan hdepth
  -- of two scopes, one is deeper than the other or their identifiers stand apart
  by_contra hne
  rcases Part.apart hp.nodes hpart hpart' hfirst.mem_nodes hfirst'.mem_nodes with hbelow | hbelow | hapart
  · have hlt := length_scopesAt_lt hbelow hne h'
    omega
  · have hlt := length_scopesAt_lt hbelow (Ne.symm hne) h
    omega
  · refine hp.lo_ne ?_ ?_ hapart (by rw [hspan])
    · exact (Part.nodes_sublist hpart).subset hfirst.mem_nodes
    · exact (Part.nodes_sublist hpart').subset hfirst'.mem_nodes

/-! ## What the walk records -/

theorem mem_visits {v : Visit} :
    v ∈ p.visits ↔ ∃ place part, p.at? place = some part ∧ v ∈ part.own (p.scopesAt place) := by
  change v ∈ (Part.script p).visits [] ↔ _
  exact Part.mem_visits

theorem mem_declarationsOf {found : Scope} {entry : Nat × Binding} (h : p.at? scope = some part)
    (hfound : part.scope? = some found) : entry ∈ Resolution.declarationsOf (p.scopesAt scope) ↔
      ∃ id, part.Declares id ∧ entry = (id.span.lo, p.binding scope id.name) := by
  have hlookup : ∀ id, part.Declares id →
      (lookup (p.scopesAt scope) id.name).map (fun found => (id.span.lo, found.1)) =
        some (id.span.lo, p.binding scope id.name) := by
    intro id hid
    obtain ⟨-, found', -, -, -, -, -, -, -, hlookup⟩ := lookup_binding ⟨id, ⟨part, h, hid⟩, rfl⟩
    rw [hlookup, Option.map_some]
  obtain ⟨outer, houter⟩ := exists_within h
  have hscopes : p.scopesAt scope = found :: outer := by rw [houter, Part.within, hfound]; rfl
  have hentry : entry ∈ Resolution.declarationsOf (p.scopesAt scope) ↔ ∃ id ∈ found,
      (lookup (p.scopesAt scope) id.name).map (fun found => (id.span.lo, found.1)) = some entry := by
    rw [hscopes]
    exact List.mem_filterMap
  rw [hentry]
  constructor
  · rintro ⟨id, hid, heq⟩
    have hdeclares := (Part.mem_scope hfound).1 hid
    rw [hlookup id hdeclares] at heq
    exact ⟨id, hdeclares, (Option.some.inj heq).symm⟩
  · rintro ⟨id, hid, rfl⟩
    exact ⟨id, (Part.mem_scope hfound).2 hid, hlookup id hid⟩

theorem declarations_flatMap {α : Type} (f : α → List Visit) (xs : List α) :
    (Resolution.ofVisits (xs.flatMap f)).declarations = xs.flatMap fun x => (Resolution.ofVisits (f x)).declarations :=
  List.flatMap_assoc

/-- **The declarations at a place** are those of the scope there. -/
theorem mem_declarations_ownAt {entry : Nat × Binding} :
    entry ∈ (Resolution.ofVisits ((Part.script p).ownAt [] scope)).declarations ↔
      ∃ id, p.Declares scope id ∧ entry = (id.span.lo, p.binding scope id.name) := by
  unfold Part.ownAt
  change entry ∈ (Resolution.ofVisits (((p.at? scope).map (Part.own (p.scopesAt scope))).getD [])).declarations ↔ _
  cases hpart : p.at? scope with
  | none =>
    constructor
    · intro h
      cases h
    · rintro ⟨id, ⟨part, hother, -⟩, -⟩
      cases hpart.symm.trans hother
  | some part =>
    simp only [Option.map_some, Option.getD_some, Resolution.ofVisits, List.mem_flatMap]
    constructor
    · rintro ⟨v, hv, hentry⟩
      cases v with
      | name | call | declarator | imports => cases hentry
      | scope scopes =>
        obtain ⟨rfl, hsome⟩ := Part.mem_own_scope.1 hv
        obtain ⟨found, hfound⟩ := Option.isSome_iff_exists.1 hsome
        obtain ⟨id, hid, rfl⟩ := (mem_declarationsOf hpart hfound).1 hentry
        exact ⟨id, ⟨part, hpart, hid⟩, rfl⟩
    · rintro ⟨id, ⟨other, hother, hid⟩, rfl⟩
      obtain rfl : part = other := Option.some.inj (hpart.symm.trans hother)
      obtain ⟨found, hfound, -⟩ := hid.scope
      refine ⟨.scope (p.scopesAt scope), Part.mem_own_scope.2 ⟨rfl, by rw [hfound]; rfl⟩, ?_⟩
      exact (mem_declarationsOf hpart hfound).2 ⟨id, hid, rfl⟩

/-- **The declarations of a script** are those of all its scopes. -/
theorem mem_declarations {entry : Nat × Binding} : entry ∈ p.resolution.declarations ↔
    ∃ scope id, p.Declares scope id ∧ entry = (id.span.lo, p.binding scope id.name) := by
  obtain ⟨places, hplaces⟩ := Part.exists_places (.script p)
  change entry ∈ (Resolution.ofVisits ((Part.script p).visits [])).declarations ↔ _
  simp only [hplaces.visits_eq, declarations_flatMap, List.mem_flatMap, mem_declarations_ownAt]
  constructor
  · rintro ⟨scope, -, id, hid, hentry⟩
    exact ⟨scope, id, hid, hentry⟩
  · rintro ⟨scope, id, hid, hentry⟩
    have ⟨part, hpart, _⟩ := hid
    exact ⟨scope, (hplaces.mem_iff scope).2 (Option.isSome_iff_exists.2 ⟨part, hpart⟩), id, hid, hentry⟩

theorem Apart.eq_of_lo (hp : p.Apart) {id' : Ident} (hid : .name id ∈ (Part.script p).nodes)
    (hid' : .name id' ∈ (Part.script p).nodes) (h : id.span.lo = id'.span.lo) : id = id' := by
  by_contra hne
  have : Std.Symm Node.Apart := ⟨fun _ _ => Node.Apart.symm⟩
  have hapart := hp.nodes.forall hid hid' fun heq => hne (Node.name.inj heq)
  exact hp.lo_ne hid hid' hapart h

theorem Declares.mem_nodes (h : p.Declares scope id) : .name id ∈ (Part.script p).nodes := by
  obtain ⟨part, hpart, hid⟩ := h
  exact (Part.nodes_sublist hpart).subset hid.mem_nodes

theorem Names.mem_nodes {written : Bool} (h : p.Names place id written) : .name id ∈ (Part.script p).nodes := by
  obtain ⟨part, hpart, hid⟩ := h
  exact (Part.nodes_sublist hpart).subset hid.mem_nodes

/-- **Looking up a name** finds the innermost scope around it that declares the name, and tells whether this scope
declares the identifier itself. -/
theorem Names.lookup_innermost (hp : p.Apart) {written : Bool} {b : Binding} {found : Scope}
    (h : p.Names place id written) (hlookup : lookup (p.scopesAt place) id.name = some (b, found)) :
    ∃ scope, p.Innermost place id.name scope ∧ b = p.binding scope id.name ∧
      (found.declaresAt id.span.lo = true ↔ p.Declares scope id) := by
  have ⟨part, hpart, hname⟩ := h
  rcases lookup_scopesAt hpart id.name with ⟨scope, hscope, heq⟩ | ⟨-, heq⟩
  · obtain ⟨inner, found', -, -, hinner, hfound, -, -, -, hbinding⟩ := lookup_binding hscope.declares
    rw [heq, hbinding] at hlookup
    obtain ⟨rfl, rfl⟩ := Prod.mk.inj (Option.some.inj hlookup)
    refine ⟨scope, hscope, rfl, ?_⟩
    rw [Scope.declaresAt, List.any_eq_true]
    constructor
    · rintro ⟨other, hother, hlo⟩
      have hother : p.Declares scope other := ⟨inner, hinner, (Part.mem_scope hfound).1 hother⟩
      rwa [hp.eq_of_lo hother.mem_nodes h.mem_nodes (beq_iff_eq.1 hlo)] at hother
    · rintro ⟨inner', hinner', hid⟩
      obtain rfl : inner = inner' := Option.some.inj (hinner.symm.trans hinner')
      exact ⟨id, (Part.mem_scope hfound).2 hid, beq_self_eq_true _⟩
  · cases heq.symm.trans hlookup

/-- **The reference that a name is** tells of the innermost scope around it. -/
theorem reference_iff (hp : p.Apart) {written : Bool} {ref : Reference} (h : p.Names place id written) :
    Reference.of? id written (p.scopesAt place) = some ref ↔ ∃ scope, p.Innermost place id.name scope ∧
      ¬ p.Declares scope id ∧ ref = ⟨p.binding scope id.name, id.span, written⟩ := by
  unfold Reference.of?
  cases hlookup : lookup (p.scopesAt place) id.name with
  | none =>
    constructor
    · intro href
      cases href
    · rintro ⟨scope, hscope, -⟩
      have ⟨part, hpart, _⟩ := h
      rcases lookup_scopesAt hpart id.name with ⟨scope', hscope', heq⟩ | ⟨hnone, -⟩
      · obtain ⟨_, _, _, _, _, _, _, _, _, hfound⟩ := lookup_binding hscope'.declares
        cases hlookup.symm.trans (heq.trans hfound)
      · exact absurd hscope.declares (hnone scope hscope.around)
  | some entry =>
    obtain ⟨b, found⟩ := entry
    obtain ⟨scope, hscope, rfl, hdeclares⟩ := h.lookup_innermost hp hlookup
    have hunique : ∀ other, p.Innermost place id.name other ↔ other = scope :=
      fun other => ⟨fun hother => hother.unique hscope, fun hother => hother ▸ hscope⟩
    simp only [hunique, exists_eq_left]
    by_cases hid : p.Declares scope id
    · rw [if_pos (hdeclares.2 hid)]
      exact ⟨nofun, fun h => absurd hid h.1⟩
    · rw [if_neg fun h => hid (hdeclares.1 h)]
      exact ⟨fun h => ⟨hid, (Option.some.inj h).symm⟩, fun h => congrArg some h.2.symm⟩

/-- **The references of a script** are its names that do not declare what they mean. -/
theorem mem_references (hp : p.Apart) {ref : Reference} : ref ∈ p.resolution.references ↔
    ∃ place id written scope, p.Names place id written ∧ p.Innermost place id.name scope ∧ ¬ p.Declares scope id ∧
      ref = ⟨p.binding scope id.name, id.span, written⟩ := by
  simp only [resolution, Resolution.ofVisits, List.mem_filterMap, mem_visits]
  constructor
  · rintro ⟨v, ⟨place, part, hpart, hv⟩, href⟩
    cases v with
    | scope | call | declarator | imports => cases href
    | name id written scopes =>
      obtain ⟨rfl, hname⟩ := Part.mem_own_name.1 hv
      have hname : p.Names place id written := ⟨part, hpart, hname⟩
      obtain ⟨scope, hscope⟩ := (reference_iff hp hname).1 href
      exact ⟨place, id, written, scope, hname, hscope⟩
  · rintro ⟨place, id, written, scope, hname, hscope⟩
    have ⟨part, hpart, hid⟩ := hname
    exact ⟨_, ⟨place, part, hpart, Part.mem_own_name.2 ⟨rfl, hid⟩⟩, (reference_iff hp hname).2 ⟨scope, hscope⟩⟩

/-- **A name stands at one place only.** -/
theorem Apart.names_unique (hp : p.Apart) {place' : Address} {id' : Ident} {written written' : Bool}
    (h : p.Names place id written) (h' : p.Names place' id' written') (hlo : id.span.lo = id'.span.lo) :
    place = place' ∧ id = id' ∧ written = written' := by
  have ⟨part, hpart, hid⟩ := h
  have ⟨part', hpart', hid'⟩ := h'
  by_cases hplace : place = place'
  · subst hplace
    obtain rfl : part = part' := Option.some.inj (hpart.symm.trans hpart')
    exact ⟨rfl, hid.unique hid'⟩
  · have hapart := Part.heads_apart hp.nodes hplace hpart hpart' hid.mem_heads hid'.mem_heads
    exact absurd hlo (hp.lo_ne h.mem_nodes h'.mem_nodes hapart)

theorem Apart.references_unique (hp : p.Apart) {ref ref' : Reference} (h : ref ∈ p.resolution.references)
    (h' : ref' ∈ p.resolution.references) (hlo : ref.span.lo = ref'.span.lo) : ref = ref' := by
  obtain ⟨place, id, written, scope, hname, hscope, -, rfl⟩ := (mem_references hp).1 h
  obtain ⟨place', id', written', scope', hname', hscope', -, rfl⟩ := (mem_references hp).1 h'
  obtain ⟨rfl, rfl, rfl⟩ := hp.names_unique hname hname' hlo
  rw [hscope.unique hscope']

theorem span_of? {id : Ident} {written : Bool} {scopes : List Scope} {ref : Reference}
    (h : Reference.of? id written scopes = some ref) : ref.span = id.span := by
  unfold Reference.of? at h
  split at h
  · cases (Option.ite_none_left_eq_some.1 h).2
    rfl
  · cases h

/-- **Every reference stands at an offset of its own.** -/
theorem Apart.references_nodup (hp : p.Apart) :
    p.resolution.references.Pairwise fun a b => a.span.lo ≠ b.span.lo := by
  have hvisited : p.visited.Pairwise Node.Apart := hp.nodes.sublist p.visited_sublist
  have hmem : ∀ {id : Ident} {written : Bool} {scopes : List Scope}, .name id written scopes ∈ p.visits →
      .name id ∈ (Part.script p).nodes :=
    fun hv => p.visited_sublist.subset (List.mem_filterMap.2 ⟨_, hv, rfl⟩)
  refine List.pairwise_filterMap.2 ((List.pairwise_filterMap.1 hvisited).imp_of_mem ?_)
  intro v w hv hw hapart ref href ref' href'
  cases v with
  | scope | call | declarator | imports => cases href
  | name id written scopes =>
    cases w with
    | scope | call | declarator | imports => cases href'
    | name id' written' scopes' =>
      rw [span_of? href, span_of? href']
      exact hp.lo_ne (hmem hv) (hmem hw) (hapart _ rfl _ rfl)

theorem readBy?_iff (hp : p.Apart) {b : Binding} : p.resolution.readBy? id = some b ↔
    ∃ ref ∈ p.resolution.references, ref.written = false ∧ ref.span.lo = id.span.lo ∧ ref.binding = b := by
  unfold Resolution.readBy?
  rw [Option.map_eq_some_iff]
  constructor
  · rintro ⟨ref, href, rfl⟩
    have hcond := List.find?_some href
    rw [Bool.and_eq_true, Bool.not_eq_true', beq_iff_eq] at hcond
    exact ⟨ref, List.mem_of_find?_eq_some href, hcond.1, hcond.2, rfl⟩
  · rintro ⟨ref, href, hread, hlo, rfl⟩
    have hsome : (p.resolution.references.find? fun ref => !ref.written && ref.span.lo == id.span.lo).isSome :=
      List.find?_isSome.2 ⟨ref, href, by simp [hread, hlo]⟩
    obtain ⟨found, hfound⟩ := Option.isSome_iff_exists.1 hsome
    have hcond := List.find?_some hfound
    rw [Bool.and_eq_true, Bool.not_eq_true', beq_iff_eq] at hcond
    have heq := hp.references_unique (List.mem_of_find?_eq_some hfound) href (hcond.2.trans hlo.symm)
    exact ⟨found, hfound, by rw [heq]⟩

theorem Names.readBy?_iff (hp : p.Apart) (h : p.Names place id false) {b : Binding} :
    p.resolution.readBy? id = some b ↔
      ∃ scope, p.Innermost place id.name scope ∧ ¬ p.Declares scope id ∧ b = p.binding scope id.name := by
  rw [Program.readBy?_iff hp]
  constructor
  · rintro ⟨ref, href, -, hlo, rfl⟩
    obtain ⟨place', id', written', scope, hname, hscope, hdeclares, rfl⟩ := (mem_references hp).1 href
    obtain ⟨rfl, rfl, -⟩ := hp.names_unique hname h hlo
    exact ⟨scope, hscope, hdeclares, rfl⟩
  · rintro ⟨scope, hscope, hdeclares, rfl⟩
    exact ⟨_, (mem_references hp).2 ⟨place, id, false, scope, h, hscope, hdeclares, rfl⟩, rfl, rfl, rfl⟩

/-! ## Resolution -/

-- a resource is declared by no scope: in its block, too, the name means what is outside
example : (match Program.read ⟨true, false⟩ "let a;\x7busing a=b;a\x7d".toList with
    | .ok p => decide (⟨⟨"a", ⟨4, 5⟩, 0⟩, ⟨17, 18⟩, false⟩ ∈ p.resolution.references)
    | .error _ => false) = true := by decide +kernel

end Source.Program
end Localizer
