import Localizer.Proofs.Offsets
import Localizer.Proofs.Sites
/-!
# Stray — reads of localize functions that are no calls

A localize function is there to be called with a key and a message; any other read of its variable is a problem at the
place of the read.  The variables are listed declarator by declarator, so one that is set to a load call twice is listed
twice, and each of its stray reads is told of twice: as often as there are declarators that set the variable
(`Calls.stray_reads`).
-/
namespace Localizer

open Source
open Text (Boundary positionOf)

theorem Script.Body.boundary {script : Script} {body : List Char} (h : script.Body body) {n : Nat} (hn : Boundary body n) :
    Boundary script.text (n + script.markLength) := by
  obtain ⟨mark, htext, hlen, -⟩ := h.marked
  obtain ⟨front, back, rfl, rfl⟩ := hn
  exact ⟨mark ++ front, back, by rw [htext, List.append_assoc], by rw [Text.byteLength_append, hlen, Nat.add_comm]⟩

theorem Script.Body.position_inj {script : Script} {body : List Char} (hbody : script.Body body) {m n : Nat}
    (hm : Boundary body m) (hn : Boundary body n) (h : script.position m = script.position n) : m = n := by
  have hm' := hbody.boundary hm
  have hn' := hbody.boundary hn
  obtain ⟨p, hp⟩ := Text.exists_positionOf hm'
  obtain ⟨q, hq⟩ := Text.exists_positionOf hn'
  have heq : p = q := by simpa [Script.position, hp, hq] using h
  have := Text.positionOf_inj hm' hn' (by rw [hp, hq, heq])
  omega

/-- **A name is called**, perhaps in parentheses, with two arguments at least. -/
def Source.Program.Called (p : Program) (id : Ident) : Prop :=
  ∃ place span callee args, p.at? place = some (.expr (.call span callee args)) ∧ callee.unparen = .ident id ∧
    2 ≤ args.length

namespace Calls

/-! ## The problems of a script -/

def Flaw.problem (script : Script) (flaw : Flaw) : Problem := ⟨flaw.fault, script.position flaw.offset⟩

/-- **All that is wrong with a script**: reads that are no calls, and calls with wrong arguments. -/
def Names.flaws (names : Names) (script : Script) (visits : List Visit) : List Flaw :=
  names.strayReads visits ++ (names.sites script visits).filterMap Site.refused?

theorem analyze_problems_eq (script : Script) (relative : Option (List Char)) (moduleName : String) :
    (analyze script relative moduleName).problems =
      sortProblems (((namesOf script.program moduleName).flaws script script.program.visits).map
        (Flaw.problem script)) := by
  unfold analyze Names.flaws
  dsimp only
  split
  · rename_i himported
    have hnil := List.isEmpty_iff.1 himported
    unfold Names.strayReads Names.sites
    rw [Names.bindings_eq_nil hnil, Names.found_eq_nil hnil]
    simp [Analysis.empty, sortSites, sortProblems]
  · rw [takeSites_refused]
    rfl

/-! ## What sets a variable -/

variable {p : Program} {moduleName : String}

/-- **Where localize functions are called by name**, with a key and a message. -/
def Names.calledAt (names : Names) (visits : List Visit) : List Nat :=
  (visits.filterMap (boundCallee? names.res names.bindings)).map (·.span.lo)

theorem calledAt_iff (hp : p.Apart) {place : Address} {id : Ident} (hname : p.Names place id false) {b : Binding}
    (hread : p.resolution.readBy? id = some b) (hb : b ∈ (namesOf p moduleName).bindings) :
    ((namesOf p moduleName).calledAt p.visits).contains id.span.lo = true ↔ p.Called id := by
  rw [List.contains_iff_mem, Names.calledAt, List.mem_map]
  constructor
  · rintro ⟨other, hother, hlo⟩
    obtain ⟨v, hv, hcallee⟩ := List.mem_filterMap.1 hother
    obtain ⟨span, callee, args, rfl, hident, hargs, -⟩ := (boundCallee?_iff hp).1 hcallee
    obtain ⟨site, hsite⟩ := at?_of_mem_visits.1 hv
    have hmem : .name other ∈ (Part.script p).nodes := by
      refine (Part.nodes_sublist hsite).subset (List.mem_cons_of_mem _ (List.mem_append_left _ ?_))
      rw [← Expr.nodes_unparen, hident]
      exact List.mem_singleton_self _
    obtain rfl : other = id := hp.eq_of_lo hmem hname.mem_nodes hlo
    exact ⟨site, span, callee, args, hsite, hident, hargs⟩
  · rintro ⟨site, span, callee, args, hsite, hident, hargs⟩
    refine ⟨id, List.mem_filterMap.2 ⟨.call span callee args, at?_of_mem_visits.2 ⟨site, hsite⟩, ?_⟩, rfl⟩
    refine (boundCallee?_iff hp).2 ⟨span, callee, args, rfl, hident, hargs, (isLocalize_iff hp).2 ?_⟩
    rw [hread]
    exact List.contains_iff_mem.2 hb

section Script

variable {script : Script} {body : List Char}

theorem boundary_of_name (hbody : script.Body body) {place : Address} {id : Ident} {written : Bool}
    (h : script.program.Names place id written) : Boundary body id.span.lo := by
  obtain ⟨hi, hlaid⟩ := hbody.laid
  obtain ⟨part, hpart, hname⟩ := h
  refine hlaid.starts (.name id) (List.mem_filterMap.2 ⟨.name id written (script.program.scopesAt place), ?_, rfl⟩)
  exact Program.mem_visits.2 ⟨place, part, hpart, Part.mem_own_name.2 ⟨rfl, hname⟩⟩

theorem mem_strayReads (hp : script.program.Apart) {moduleName : String} {flaw : Flaw}
    (h : flaw ∈ (namesOf script.program moduleName).strayReads script.program.visits) :
    ∃ place id, script.program.Names place id false ∧ (namesOf script.program moduleName).IsLocalize script.program id ∧
      ¬ script.program.Called id ∧ flaw = ⟨.reference id.name, id.span.lo⟩ := by
  obtain ⟨b, hb, hflaw⟩ := List.mem_flatMap.1 h
  obtain ⟨ref, href, rfl⟩ := List.mem_map.1 hflaw
  obtain ⟨hreads, hunused⟩ := List.mem_filter.1 href
  obtain ⟨hmem, hcond⟩ := List.mem_filter.1 hreads
  rw [Bool.and_eq_true, beq_iff_eq, Bool.not_eq_true'] at hcond
  obtain ⟨place, id, written, scope, hname, hscope, hdeclares, rfl⟩ := (Program.mem_references hp).1 hmem
  obtain ⟨rfl, rfl⟩ : script.program.binding scope id.name = b ∧ written = false := hcond
  have hread := (hname.readBy?_iff hp).2 ⟨scope, hscope, hdeclares, rfl⟩
  refine ⟨place, id, hname, (isLocalize_iff hp).2 ?_, fun hcalled => ?_, ?_⟩
  · rw [hread]
    exact List.contains_iff_mem.2 hb
  · have hused := congrArg not ((calledAt_iff hp hname hread hb).2 hcalled)
    exact absurd (hunused.symm.trans hused) (by decide)
  · rw [Program.binding_name hscope.declares]

end Script

end Calls
end Localizer
