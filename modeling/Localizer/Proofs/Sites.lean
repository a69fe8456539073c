import Localizer.Proofs.Bindings
import Localizer.Proofs.Requests
/-!
# Sites — the calls of localize functions

A load call is `b.loadMessageBundle(…)` or `b.config(…)(…)` on a name that reads the message module.  A call is one of a
localize function if it is made on a load call, or on a name that reads a variable set to a load call and with two
arguments at least.  The sites of a script are exactly these calls (`Calls.mem_sites`), in the order of their starts, of
which no two are the same: what a site calls holds no other site that starts where it starts.
-/
namespace Localizer

open Source

theorem Source.Expr.nodes_unparen (e : Expr) : e.unparen.nodes = e.nodes := by
  fun_induction Expr.unparen e with
  | case1 _ inner ih => rw [ih, Expr.nodes]
  | case2 e => rfl

namespace Calls

/-! ## Load calls and localize calls -/

/-- **A name of the message module is read.** -/
def Names.IsImport (names : Names) (id : Ident) : Prop := ∃ b ∈ names.imported, names.res.readBy? id = some b

/-- **A member of the message module.** -/
def Names.IsMember (names : Names) (method : String) (e : Expr) : Prop :=
  ∃ span object id, e = .member span object method ∧ object.unparen = .ident id ∧ names.IsImport id

/-- **A load call.** -/
inductive Names.IsLoad (names : Names) : Expr → Prop
  | bundle {span : Span} {callee : Expr} {args : List Expr} :
      names.IsMember "loadMessageBundle" callee.unparen → IsLoad names (.call span callee args)
  | config {span configSpan : Span} {callee inner : Expr} {args configArgs : List Expr} :
      callee.unparen = .call configSpan inner configArgs → names.IsMember "config" inner.unparen →
        IsLoad names (.call span callee args)

/-- **A name reads a variable that is set to a load call.** -/
def Names.IsLocalize (names : Names) (p : Program) (id : Ident) : Prop :=
  ∃ place target value b, p.at? place = some (.declarator (.init (.ident target) value)) ∧
    names.IsLoad value.unparen ∧ names.res.declaredBy? target = some b ∧ names.res.readBy? id = some b

/-- **A call of a localize function**, by what is called and by the arguments. -/
inductive Names.Localizes (names : Names) (p : Program) (callee : Expr) (args : List Expr) : Prop
  | direct : names.IsLoad callee.unparen → Localizes names p callee args
  | bound {id : Ident} : callee.unparen = .ident id → 2 ≤ args.length → names.IsLocalize p id →
      Localizes names p callee args

/-- **What the names of a script mean.** -/
abbrev namesOf (p : Program) (moduleName : String) : Names := .ofVisits moduleName p.visits

section Agreement

variable {p : Program} {moduleName : String} {e : Expr}

theorem contains_reads_iff (hp : p.Apart) {id : Ident} :
    (namesOf p moduleName).reads.contains id.span.lo = true ↔ (namesOf p moduleName).IsImport id := by
  have hread : ∀ b, (namesOf p moduleName).res.readBy? id = some b ↔ _ := fun b => Program.readBy?_iff hp
  simp only [Names.IsImport, hread]
  rw [List.contains_iff_mem]
  change id.span.lo ∈ importReads p.resolution (namesOf p moduleName).imported ↔ _
  simp only [importReads, Resolution.readsOf, List.mem_flatMap, List.mem_map, List.mem_filter, Bool.and_eq_true,
    beq_iff_eq, Bool.not_eq_true']
  constructor
  · rintro ⟨b, hb, ref, ⟨href, hbinding, hwritten⟩, hlo⟩
    exact ⟨b, hb, ref, href, hwritten, hlo, hbinding⟩
  · rintro ⟨b, hb, ref, href, hwritten, hlo, hbinding⟩
    exact ⟨b, hb, ref, ⟨href, hbinding, hwritten⟩, hlo⟩

theorem isModuleMember_iff (hp : p.Apart) {method : String} :
    isModuleMember (namesOf p moduleName).reads method e = true ↔ (namesOf p moduleName).IsMember method e := by
  unfold isModuleMember Names.IsMember
  split
  · rename_i span object property
    rw [Bool.and_eq_true, beq_iff_eq]
    cases hobject : object.unparen with
    | ident id =>
      dsimp only
      rw [contains_reads_iff hp]
      constructor
      · rintro ⟨rfl, himport⟩
        exact ⟨span, object, id, rfl, hobject, himport⟩
      · rintro ⟨_, _, _, ⟨⟩, hid, himport⟩
        rw [hobject] at hid
        cases hid
        exact ⟨rfl, himport⟩
    | _ => simp [hobject]
  · rename_i hother
    refine ⟨nofun, ?_⟩
    rintro ⟨span, object, id, rfl, -⟩
    exact absurd rfl (hother span object method)

theorem isLoad_iff (hp : p.Apart) : isLoad (namesOf p moduleName).reads e = true ↔ (namesOf p moduleName).IsLoad e := by
  unfold isLoad
  split
  · rename_i span callee args
    unfold isLoader
    split
    · rename_i memberSpan object property hcallee
      rw [isModuleMember_iff hp, ← hcallee]
      refine ⟨.bundle, ?_⟩
      rintro (hmember | ⟨hcall, -⟩)
      · exact hmember
      · rw [hcallee] at hcall
        cases hcall
    · rename_i configSpan inner configArgs hcallee
      rw [isModuleMember_iff hp]
      refine ⟨.config hcallee, ?_⟩
      rintro (⟨_, _, _, hmember, -⟩ | ⟨hcall, hmember⟩)
      · rw [hcallee] at hmember
        cases hmember
      · rw [hcallee] at hcall
        cases hcall
        exact hmember
    · rename_i hnomember hnocall
      refine ⟨nofun, ?_⟩
      rintro (⟨span, object, id, hmember, -⟩ | ⟨hcall, -⟩)
      · exact absurd hmember (hnomember _ _ _)
      · exact absurd hcall (hnocall _ _ _)
  · rename_i hnocall
    refine ⟨nofun, ?_⟩
    rintro (_ | _)
    · exact absurd rfl (hnocall _ _ _)
    · exact absurd rfl (hnocall _ _ _)

theorem isLoader_of_isLoad {names : Names} (h : names.IsLoad e) (reads : List Nat) : isLoader reads e = false := by
  cases h with
  | bundle hmember =>
    obtain ⟨span, object, id, hcallee, -⟩ := hmember
    simp [isLoader, hcallee, isModuleMember]
  | config hcall hmember => simp [isLoader, hcall, isModuleMember]

theorem mem_bindings_iff (hp : p.Apart) {b : Binding} : b ∈ (namesOf p moduleName).bindings ↔
    ∃ place target value, p.at? place = some (.declarator (.init (.ident target) value)) ∧
      (namesOf p moduleName).IsLoad value.unparen ∧ p.resolution.declaredBy? target = some b := by
  change b ∈ p.visits.flatMap (loadedBinding p.resolution (namesOf p moduleName).reads) ↔ _
  rw [List.mem_flatMap]
  constructor
  · rintro ⟨v, hv, hb⟩
    unfold loadedBinding at hb
    split at hb
    · rename_i target value
      split at hb
      · rename_i hload
        obtain ⟨place, part, hpart, hown⟩ := Program.mem_visits.1 hv
        rw [Part.mem_own_declarator.1 hown] at hpart
        exact ⟨place, target, value, hpart, (isLoad_iff hp).1 hload, Option.mem_toList.1 hb⟩
      · cases hb
    · cases hb
  · rintro ⟨place, target, value, hpart, hload, hb⟩
    refine ⟨_, Program.mem_visits.2 ⟨place, _, hpart, Part.mem_own_declarator.2 rfl⟩, ?_⟩
    rw [loadedBinding, if_pos ((isLoad_iff hp).2 hload)]
    exact Option.mem_toList.2 hb

theorem directSite?_iff (hp : p.Apart) {script : Script} {v : Visit} {site : Site} :
    directSite? script (namesOf p moduleName).reads v = some site ↔ ∃ span callee args, v = .call span callee args ∧
      (namesOf p moduleName).IsLoad callee.unparen ∧ site = ⟨span.lo, entryOf script span args⟩ := by
  cases v with
  | call span callee args =>
    by_cases hload : (namesOf p moduleName).IsLoad callee.unparen
    · have hsite : directSite? script (namesOf p moduleName).reads (.call span callee args) =
          some ⟨span.lo, entryOf script span args⟩ := by
        simp [directSite?, isLoader_of_isLoad hload, (isLoad_iff hp).2 hload]
      rw [hsite]
      constructor
      · rintro ⟨⟩
        exact ⟨_, _, _, rfl, hload, rfl⟩
      · rintro ⟨_, _, _, ⟨⟩, -, rfl⟩
        rfl
    · have hsite : directSite? script (namesOf p moduleName).reads (.call span callee args) = none := by
        simp [directSite?, mt (isLoad_iff hp).1 hload]
      rw [hsite]
      constructor
      · intro h
        cases h
      · rintro ⟨_, _, _, ⟨⟩, hload', -⟩
        exact absurd hload' hload
  | _ => simp [directSite?]

theorem isLocalize_iff (hp : p.Apart) {id : Ident} : (namesOf p moduleName).IsLocalize p id ↔
    (p.resolution.readBy? id).any (namesOf p moduleName).bindings.contains = true := by
  rw [Option.any_eq_true]
  constructor
  · rintro ⟨place, target, value, b, hpart, hload, hdeclared, hread⟩
    refine ⟨b, hread, List.contains_iff_mem.2 ?_⟩
    exact (mem_bindings_iff hp).2 ⟨place, target, value, hpart, hload, hdeclared⟩
  · rintro ⟨b, hread, hb⟩
    obtain ⟨place, target, value, hpart, hload, hdeclared⟩ := (mem_bindings_iff hp).1 (List.contains_iff_mem.1 hb)
    exact ⟨place, target, value, b, hpart, hload, hdeclared, hread⟩

theorem boundCallee?_iff (hp : p.Apart) {v : Visit} {id : Ident} :
    boundCallee? p.resolution (namesOf p moduleName).bindings v = some id ↔ ∃ span callee args,
      v = .call span callee args ∧ callee.unparen = .ident id ∧ 2 ≤ args.length ∧
        (namesOf p moduleName).IsLocalize p id := by
  unfold boundCallee?
  split
  · rename_i span callee args
    split
    · rename_i other hcallee
      rw [Option.ite_none_right_eq_some, Bool.and_eq_true, decide_eq_true_eq, ← isLocalize_iff hp]
      constructor
      · rintro ⟨⟨hargs, hlocalize⟩, heq⟩
        cases heq
        exact ⟨span, callee, args, rfl, hcallee, hargs, hlocalize⟩
      · rintro ⟨_, _, _, ⟨⟩, hid, hargs, hlocalize⟩
        rw [hcallee] at hid
        cases hid
        exact ⟨⟨hargs, hlocalize⟩, rfl⟩
    · rename_i hother
      refine ⟨nofun, ?_⟩
      rintro ⟨_, _, _, ⟨⟩, hid, -⟩
      exact absurd hid (hother id)
  · rename_i hother
    refine ⟨nofun, ?_⟩
    rintro ⟨span, callee, args, rfl, -⟩
    exact absurd rfl (hother span callee args)

theorem boundSite?_iff (hp : p.Apart) {script : Script} {v : Visit} {site : Site} :
    boundSite? script p.resolution (namesOf p moduleName).bindings v = some site ↔
      ∃ span callee args id, v = .call span callee args ∧ callee.unparen = .ident id ∧ 2 ≤ args.length ∧
        (namesOf p moduleName).IsLocalize p id ∧ site = ⟨span.lo, entryOf script span args⟩ := by
  have hsite : boundSite? script p.resolution (namesOf p moduleName).bindings v = some site ↔
      ∃ span callee args id, v = .call span callee args ∧
        boundCallee? p.resolution (namesOf p moduleName).bindings v = some id ∧
          site = ⟨span.lo, entryOf script span args⟩ := by
    unfold boundSite?
    split
    · rename_i span callee args id hcallee
      rw [hcallee]
      constructor
      · rintro ⟨⟩
        exact ⟨span, callee, args, id, rfl, rfl, rfl⟩
      · rintro ⟨_, _, _, _, ⟨⟩, -, rfl⟩
        rfl
    · rename_i hother
      refine ⟨nofun, ?_⟩
      rintro ⟨span, callee, args, id, rfl, hid, -⟩
      exact absurd hid (hother span callee args id rfl)
  rw [hsite]
  constructor
  · rintro ⟨span, callee, args, id, rfl, hid, rfl⟩
    obtain ⟨_, _, _, ⟨⟩, hcallee, hargs, hlocalize⟩ := (boundCallee?_iff hp).1 hid
    exact ⟨span, callee, args, id, rfl, hcallee, hargs, hlocalize, rfl⟩
  · rintro ⟨span, callee, args, id, rfl, hcallee, hargs, hlocalize, rfl⟩
    have hid := (boundCallee?_iff hp).2 ⟨span, callee, args, rfl, hcallee, hargs, hlocalize⟩
    exact ⟨span, callee, args, id, rfl, hid, rfl⟩

end Agreement

/-! ## Where localize calls start -/

section Starts

variable {names : Names} {p : Program} {whole : List Char} {span span' : Span} {callee callee' : Expr}
  {args args' : List Expr}

theorem Names.IsMember.nodes {method : String} {e : Expr} (h : names.IsMember method e.unparen) :
    ∃ id, e.nodes = [.name id] := by
  obtain ⟨span, object, id, he, hobject, -⟩ := h
  refine ⟨id, ?_⟩
  rw [← Expr.nodes_unparen, he, Expr.nodes, ← Expr.nodes_unparen, hobject, Expr.nodes]

/-- **What stands in the arguments of a call** starts after the call, if there is a name in what is called. -/
theorem lo_lt_of_mem_args (hform : (Node.call span callee args).Formed whole) {id : Ident}
    (hid : .name id ∈ callee.nodes) (hname : (Node.name id).Formed whole) {e : Expr} (he : e ∈ args) {n : Node}
    (hn : n ∈ e.nodes) : span.lo < n.span.lo := by
  obtain ⟨hlo, -, hset, hrow⟩ := hform
  have hin := hset.within _ hid
  have hbehind := hrow.within e he
  have harg := (hrow.set e he).within n hn
  dsimp only [Node.Formed, Node.span] at hname hin
  omega

theorem Names.IsMember.not_localizes {method : String} (h : names.IsMember method callee.unparen) :
    ¬ names.Localizes p callee args := by
  obtain ⟨span, object, id, hmember, -⟩ := h
  rintro (hload | ⟨hid, -, -⟩)
  · rw [hmember] at hload
    cases hload
  · rw [hmember] at hid
    cases hid

/-- **A node of what a localize call calls**, by the name that stands there. -/
inductive Names.Called (names : Names) (p : Program) (callee : Expr) (id : Ident) : Node → Prop
  /-- the name itself -/
  | name : Called names p callee id (.name id)
  /-- a call that is not one of a localize function -/
  | load {span : Span} {inner : Expr} {args : List Expr} :
      ¬ names.Localizes p inner args → Called names p callee id (.call span inner args)
  /-- something in the arguments of a call, behind the name -/
  | arg {span : Span} {inner : Expr} {args : List Expr} {e : Expr} {n : Node} : .call span inner args ∈ callee.nodes →
      .name id ∈ inner.nodes → e ∈ args → n ∈ e.nodes → Called names p callee id n

theorem Names.IsLoad.called {e : Expr} (h : names.IsLoad e) :
    ∃ id, .name id ∈ e.nodes ∧ ∀ n ∈ e.nodes, names.Called p e id n := by
  cases h with
  | @bundle span callee args hmember =>
    obtain ⟨id, hid⟩ := hmember.nodes
    have hself : .call span callee args ∈ (Expr.call span callee args).nodes := List.mem_cons_self
    refine ⟨id, by simp [hid], fun n hn => ?_⟩
    simp only [Expr.nodes, hid, Expr.nodesOf_eq, List.mem_cons, List.mem_append, List.not_mem_nil, or_false,
      List.mem_flatMap] at hn
    rcases hn with rfl | rfl | ⟨arg, harg, hn⟩
    · exact .load hmember.not_localizes
    · exact .name
    · exact .arg hself (by simp [hid]) harg hn
  | @config span configSpan callee inner args configArgs hcall hmember =>
    obtain ⟨id, hid⟩ := hmember.nodes
    have hcallee : callee.nodes = .call configSpan inner configArgs :: .name id :: configArgs.flatMap Expr.nodes := by
      rw [← Expr.nodes_unparen, hcall, Expr.nodes, hid, Expr.nodesOf_eq]
      rfl
    have hself : .call span callee args ∈ (Expr.call span callee args).nodes := List.mem_cons_self
    have hconfig : .call configSpan inner configArgs ∈ (Expr.call span callee args).nodes := by simp [hcallee]
    have hnot : ¬ names.Localizes p callee args := by
      obtain ⟨memberSpan, object, _, hinner, -⟩ := hmember
      rintro (hload | ⟨hident, -, -⟩)
      · rw [hcall] at hload
        rcases hload with ⟨_, _, _, hother, -⟩ | ⟨hother, -⟩
        · exact absurd (Expr.member.inj (hinner.symm.trans hother)).2.2 (by decide)
        · rw [hinner] at hother
          cases hother
      · rw [hcall] at hident
        cases hident
    refine ⟨id, by simp [hcallee], fun n hn => ?_⟩
    simp only [Expr.nodes, hcallee, Expr.nodesOf_eq, List.mem_cons, List.mem_append, List.mem_flatMap] at hn
    rcases hn with rfl | (rfl | rfl | ⟨arg, harg, hn⟩) | ⟨arg, harg, hn⟩
    · exact .load hnot
    · exact .load hmember.not_localizes
    · exact .name
    · exact .arg hconfig (by simp [hid]) harg hn
    · exact .arg hself (by simp [hcallee]) harg hn

theorem Names.Localizes.called (h : names.Localizes p callee args) :
    ∃ id, .name id ∈ callee.nodes ∧ ∀ n ∈ callee.nodes, names.Called p callee id n := by
  cases h with
  | direct hload =>
    obtain ⟨id, hid, hcalled⟩ := hload.called (p := p)
    rw [Expr.nodes_unparen] at hid hcalled
    refine ⟨id, hid, fun n hn => ?_⟩
    cases hcalled n hn with
    | name => exact .name
    | load hnot => exact .load hnot
    | arg hcall hid he hn => exact .arg (by rwa [Expr.nodes_unparen] at hcall) hid he hn
  | @bound id hid =>
    have hnodes : callee.nodes = [.name id] := by rw [← Expr.nodes_unparen, hid, Expr.nodes]
    refine ⟨id, by simp [hnodes], fun n hn => ?_⟩
    rw [hnodes, List.mem_singleton] at hn
    exact hn ▸ .name

/-- **A localize call inside a localize call starts later.** -/
theorem lo_lt_of_inside (h : names.Localizes p callee args) (h' : names.Localizes p callee' args')
    (hform : (Node.call span callee args).Formed whole) (hforms : ∀ n ∈ callee.nodes, n.Formed whole)
    (hin : (Node.call span' callee' args').Inside (.call span callee args)) : span.lo < span'.lo := by
  obtain ⟨id, hid, hcalled⟩ := h.called
  rcases hin with hin | ⟨e, he, hin⟩
  · cases hcalled _ hin with
    | load hnot => exact absurd h' hnot
    | arg hcall hname he hn =>
      have hlt := lo_lt_of_mem_args (hforms _ hcall) hname (hforms _ hid) he hn
      have hwithin := hform.2.2.1.within _ hcall
      have hle := hform.1
      dsimp only [Node.span] at hlt hwithin
      omega
  · exact lo_lt_of_mem_args hform hid (hforms _ hid) he hin

/-- **Two localize calls that are apart start at different offsets.** -/
theorem lo_ne_of_apart (h : names.Localizes p callee args) (h' : names.Localizes p callee' args')
    (hform : (Node.call span callee args).Formed whole) (hforms : ∀ n ∈ callee.nodes, n.Formed whole)
    (hform' : (Node.call span' callee' args').Formed whole) (hforms' : ∀ n ∈ callee'.nodes, n.Formed whole)
    (hapart : (Node.call span callee args).Apart (.call span' callee' args')) : span.lo ≠ span'.lo := by
  have hlt : ∀ {span : Span} {callee : Expr} {args : List Expr}, names.Localizes p callee args →
      (Node.call span callee args).Formed whole → (∀ n ∈ callee.nodes, n.Formed whole) → span.lo < span.hi := by
    intro span callee args h hform hforms
    obtain ⟨id, hid, -⟩ := h.called
    have hname := hforms _ hid
    have hwithin := hform.2.2.1.within _ hid
    have hlo := hform.1
    have hhi := hform.2.1
    dsimp only [Node.Formed, Node.span] at hname hwithin
    omega
  have hpos := hlt h hform hforms
  have hpos' := hlt h' hform' hforms'
  rcases hapart with hle | hle | hin | hin
  · dsimp only [Node.span] at hle
    omega
  · dsimp only [Node.span] at hle
    omega
  · exact Nat.ne_of_gt (lo_lt_of_inside h' h hform' hforms' hin)
  · exact Nat.ne_of_lt (lo_lt_of_inside h h' hform hforms hin)

end Starts

/-! ## The sites of a script -/

section Sites

variable {p : Program} {moduleName : String} {script : Script} {body : List Char} {lo hi : Nat}

/-- **What a visit is as a site**, of either kind. -/
def Names.site? (names : Names) (script : Script) (v : Visit) : Option Site :=
  (directSite? script names.reads v).or (boundSite? script names.res names.bindings v)

theorem site?_iff (hp : p.Apart) {v : Visit} {site : Site} : (namesOf p moduleName).site? script v = some site ↔
    ∃ span callee args, v = .call span callee args ∧ (namesOf p moduleName).Localizes p callee args ∧
      site = ⟨span.lo, entryOf script span args⟩ := by
  have hbound : boundSite? script (namesOf p moduleName).res (namesOf p moduleName).bindings v = some site ↔ _ :=
    boundSite?_iff hp
  rw [Names.site?, Option.or_eq_some_iff]
  constructor
  · rintro (hdirect | ⟨-, hsite⟩)
    · obtain ⟨span, callee, args, rfl, hload, rfl⟩ := (directSite?_iff hp).1 hdirect
      exact ⟨span, callee, args, rfl, .direct hload, rfl⟩
    · obtain ⟨span, callee, args, id, rfl, hid, hargs, hlocalize, rfl⟩ := hbound.1 hsite
      exact ⟨span, callee, args, rfl, .bound hid hargs hlocalize, rfl⟩
  · rintro ⟨span, callee, args, rfl, hload | ⟨hid, hargs, hlocalize⟩, rfl⟩
    · exact .inl ((directSite?_iff hp).2 ⟨span, callee, args, rfl, hload, rfl⟩)
    · refine .inr ⟨?_, hbound.2 ⟨span, callee, args, _, rfl, hid, hargs, hlocalize, rfl⟩⟩
      rw [Option.eq_none_iff_forall_ne_some]
      intro other hother
      obtain ⟨_, _, _, ⟨⟩, hload, -⟩ := (directSite?_iff hp).1 hother
      rw [hid] at hload
      cases hload

/-- **The two searches find the sites of both kinds**, each once. -/
theorem found_perm (hp : p.Apart) : ((namesOf p moduleName).found script p.visits).Perm
    (p.visits.filterMap ((namesOf p moduleName).site? script)) := by
  have hone : ∀ v, (directSite? script (namesOf p moduleName).reads v).toList ++
      (boundSite? script (namesOf p moduleName).res (namesOf p moduleName).bindings v).toList =
        ((namesOf p moduleName).site? script v).toList := by
    intro v
    rw [Names.site?]
    cases hdirect : directSite? script (namesOf p moduleName).reads v with
    | none => rfl
    | some site =>
      cases hbound : boundSite? script (namesOf p moduleName).res (namesOf p moduleName).bindings v with
      | none => rfl
      | some other =>
        -- a call is made on a load call or on a name, not on both
        obtain ⟨_, _, _, rfl, hload, -⟩ := (directSite?_iff hp).1 hdirect
        obtain ⟨_, _, _, _, ⟨⟩, hid, -⟩ := (boundSite?_iff hp).1 hbound
        rw [hid] at hload
        cases hload
  unfold Names.found
  simp only [List.filterMap_eq_flatMap_toList, ← hone]
  exact List.flatMap_append_perm p.visits _ _

theorem formed_of_at? (hlaid : Laid body lo hi p.nodes) {place : Address} {span : Span} {callee : Expr}
    {args : List Expr} (h : p.at? place = some (.expr (.call span callee args))) :
    (Node.call span callee args).Formed body ∧ ∀ n ∈ callee.nodes, n.Formed body := by
  have hsub : (Expr.call span callee args).nodes.Sublist p.nodes := Part.nodes_sublist h
  refine ⟨hlaid.formed _ (hsub.subset List.mem_cons_self), fun n hn => hlaid.formed n (hsub.subset ?_)⟩
  exact List.mem_cons_of_mem _ (List.mem_append_left _ hn)

theorem at?_of_mem_visits {span : Span} {callee : Expr} {args : List Expr} :
    .call span callee args ∈ p.visits ↔ ∃ place, p.at? place = some (.expr (.call span callee args)) := by
  rw [Program.mem_visits]
  constructor
  · rintro ⟨place, part, hpart, hown⟩
    exact ⟨place, Part.mem_own_call.1 hown ▸ hpart⟩
  · rintro ⟨place, hpart⟩
    exact ⟨place, _, hpart, Part.mem_own_call.2 rfl⟩

theorem mem_sites (hp : p.Apart) {site : Site} : site ∈ (namesOf p moduleName).sites script p.visits ↔
    ∃ place span callee args, p.at? place = some (.expr (.call span callee args)) ∧
      (namesOf p moduleName).Localizes p callee args ∧ site = ⟨span.lo, entryOf script span args⟩ := by
  unfold Names.sites sortSites
  rw [List.mem_mergeSort, (found_perm hp).mem_iff, List.mem_filterMap]
  constructor
  · rintro ⟨v, hv, hsite⟩
    obtain ⟨span, callee, args, rfl, hlocalizes, rfl⟩ := (site?_iff hp).1 hsite
    obtain ⟨place, hpart⟩ := at?_of_mem_visits.1 hv
    exact ⟨place, span, callee, args, hpart, hlocalizes, rfl⟩
  · rintro ⟨place, span, callee, args, hpart, hlocalizes, rfl⟩
    exact ⟨_, at?_of_mem_visits.2 ⟨place, hpart⟩, (site?_iff hp).2 ⟨span, callee, args, rfl, hlocalizes, rfl⟩⟩

/-- **A call and its place in the script.** -/
structure Call where
  place : Address
  span : Span
  callee : Expr
  args : List Expr

/-- **A call of a localize function stands in the script.** -/
structure Names.IsSite (names : Names) (p : Program) (call : Call) : Prop where
  at? : p.at? call.place = some (.expr (.call call.span call.callee call.args))
  localizes : names.Localizes p call.callee call.args

def Call.site (script : Script) (call : Call) : Site := ⟨call.span.lo, entryOf script call.span call.args⟩

/-- **A call gives an entry**: the first argument denotes its key, and the second one is a string with its message. -/
def Call.Gives (script : Script) (call : Call) (entry : Entry) : Prop :=
  ∃ key value rest, call.args = key :: .string entry.messageSpan value :: rest ∧ entry.keySpan = key.span ∧
    keyOf key = .ok entry.key ∧
    entry.message = String.ofList (Text.unescape (betweenQuotes (script.slice entry.messageSpan)))

theorem Call.accepted?_site {call : Call} {entry : Entry} :
    (call.site script).accepted? = some entry ↔ call.Gives script entry := by
  rw [Call.Gives, ← entryOf_eq_ok_iff]
  unfold Site.accepted? Call.site
  cases entryOf script call.span call.args <;> simp [Except.toOption]

theorem IsSite.eq_of_lo {names : Names} (hlaid : Laid body lo hi p.nodes) {a b : Call} (ha : names.IsSite p a)
    (hb : names.IsSite p b) (hlo : a.span.lo = b.span.lo) : a = b := by
  obtain ⟨place, span, callee, args⟩ := a
  obtain ⟨place', span', callee', args'⟩ := b
  have hplace : place = place' := by
    by_contra hne
    obtain ⟨hform, hforms⟩ := formed_of_at? hlaid ha.at?
    obtain ⟨hform', hforms'⟩ := formed_of_at? hlaid hb.at?
    refine lo_ne_of_apart ha.localizes hb.localizes hform hforms hform' hforms' ?_ hlo
    have hnodes : (Part.script p).nodes.Pairwise Node.Apart := hlaid.apart
    exact Part.heads_apart hnodes hne ha.at? hb.at? (List.mem_singleton_self _) (List.mem_singleton_self _)
  subst hplace
  cases Option.some.inj (ha.at?.symm.trans hb.at?)
  rfl

end Sites

/-! ## What the sites give -/

def Site.refused? (site : Site) : Option Flaw :=
  match site.outcome with
  | .error flaw => some flaw
  | .ok _ => none

theorem takeSites_bundle (script : Script) : ∀ (sites : List Site) (bundle : Bundle),
    (takeSites script sites bundle).2.2 = ⟨bundle.messages ++ (sites.filterMap Site.accepted?).map (·.message),
      bundle.keys ++ (sites.filterMap Site.accepted?).map (·.key)⟩
  | [], bundle => by simp [takeSites]
  | ⟨start, .error flaw⟩ :: sites, bundle => takeSites_bundle script sites bundle
  | ⟨start, .ok entry⟩ :: sites, bundle => by
    have hrest := takeSites_bundle script sites (bundle.push entry.key entry.message)
    simpa [takeSites, Site.accepted?, Except.toOption, Bundle.push] using hrest

theorem takeSites_refused (script : Script) : ∀ (sites : List Site) (bundle : Bundle),
    (takeSites script sites bundle).2.1 = sites.filterMap Site.refused?
  | [], _ => rfl
  | ⟨_, .error flaw⟩ :: sites, bundle => congrArg (flaw :: ·) (takeSites_refused script sites bundle)
  | ⟨_, .ok _⟩ :: sites, _ => takeSites_refused script sites _

end Calls
end Localizer
