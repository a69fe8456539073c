import Localizer.Proofs.Parts
/-!
# Declared — the names that belong to a scope

What a part declares is said here rule by rule: a function its parameters, the variables of its body at any depth and
the other declarations directly in the body; a block, a loop head or a handler what stands directly in it; a function or
class expression its own name.  The scopes of the walk list exactly these identifiers (`Part.mem_scope`), and each of
them is a node of the part (`Part.Declares.mem_nodes`).  Resources and the bodies of `switch` and of namespaces declare
nothing, and neither does a variable in a block of a class.
-/
namespace Localizer
namespace Source

variable {id : Ident}

/-- **A pattern binds an identifier.** -/
inductive Pattern.Binds : Pattern → Ident → Prop
  | ident {id : Ident} : Binds (.ident id) id
  | group {parts : List Pattern} {part : Pattern} {id : Ident} : part ∈ parts → Binds part id → Binds (.group parts) id

/-- **What a declarator binds a value to.** -/
def Declarator.target : Declarator → Pattern
  | .bare target | .init target _ => target

/-- **The statements in a statement**, other than in functions and classes. -/
def Stmt.inner : Stmt → List Stmt
  | .entity _ _ body | .control _ body | .handler _ body => body
  | .scoped head body => head ++ body
  | _ => []

/-- **A statement hands a variable to the function around it.** -/
inductive Stmt.Hoists : Stmt → Ident → Prop
  | vars {decls : List Declarator} {d : Declarator} {id : Ident} :
      d ∈ decls → d.target.Binds id → Hoists (.vars .hoisted decls) id
  | inner {s deeper : Stmt} {id : Ident} : deeper ∈ s.inner → Hoists deeper id → Hoists s id

/-- **A statement declares an identifier in the block that it stands in.** -/
inductive Stmt.Declares : Stmt → Ident → Prop
  | vars {decls : List Declarator} {d : Declarator} {id : Ident} :
      d ∈ decls → d.target.Binds id → Declares (.vars .lexical decls) id
  | function {id : Ident} {decorators : List Expr} {fn : Function} : Declares (.function id decorators fn) id
  | classDecl {id : Ident} {members : List Member} : Declares (.classDecl id members) id
  | entity {id : Ident} {parts : List Expr} {body : List Stmt} : Declares (.entity (some id) parts body) id
  | imports {typesOnly : Bool} {source : Option String} {names : List ImportedName} {imported : ImportedName} :
      imported ∈ names → Declares (.imports typesOnly source names) imported.ident
  | exportDefault {id : Ident} {value : Expr} : Declares (.exportDefault (some id) value) id

/-! ## The lists of the walk -/

mutual

theorem Pattern.mem_idents : ∀ p : Pattern, id ∈ p.idents ↔ p.Binds id
  | .ident other => by
    rw [Pattern.idents, List.mem_singleton]
    exact ⟨fun h => h ▸ .ident, fun h => by cases h; rfl⟩
  | .expr e => by
    rw [Pattern.idents]
    exact ⟨nofun, nofun⟩
  | .group parts => by
    rw [Pattern.idents, Pattern.mem_identsOf parts]
    exact ⟨fun ⟨_, hpart, h⟩ => .group hpart h, fun | .group hpart h => ⟨_, hpart, h⟩⟩

theorem Pattern.mem_identsOf : ∀ ps : List Pattern, id ∈ Pattern.identsOf ps ↔ ∃ p ∈ ps, p.Binds id
  | [] => by simp [Pattern.identsOf]
  | p :: ps => by simp [Pattern.identsOf, Pattern.mem_idents p, Pattern.mem_identsOf ps]

end

theorem Declarator.mem_idents (d : Declarator) : id ∈ d.idents ↔ d.target.Binds id := by
  cases d <;> exact Pattern.mem_idents _

theorem Declarator.mem_flatMap_idents {decls : List Declarator} :
    id ∈ decls.flatMap Declarator.idents ↔ ∃ d ∈ decls, d.target.Binds id := by
  simp only [List.mem_flatMap, Declarator.mem_idents]

mutual

theorem Stmt.mem_hoisted : ∀ s : Stmt, id ∈ s.hoisted ↔ s.Hoists id
  | .vars .hoisted decls => by
    rw [Stmt.hoisted, Declarator.mem_flatMap_idents]
    exact ⟨fun ⟨_, hd, h⟩ => .vars hd h, fun | .vars hd h => ⟨_, hd, h⟩⟩
  | .entity _ _ body => by
    rw [Stmt.hoisted, Stmt.mem_hoistedOf body]
    exact ⟨fun ⟨_, hs, h⟩ => .inner hs h, fun | .inner hs h => ⟨_, hs, h⟩⟩
  | .scoped head body => by
    rw [Stmt.hoisted, List.mem_append, Stmt.mem_hoistedOf head, Stmt.mem_hoistedOf body]
    constructor
    · rintro (⟨_, hs, h⟩ | ⟨_, hs, h⟩)
      · exact .inner (List.mem_append_left _ hs) h
      · exact .inner (List.mem_append_right _ hs) h
    · rintro (_ | ⟨hs, h⟩)
      rcases List.mem_append.1 hs with hs | hs
      · exact .inl ⟨_, hs, h⟩
      · exact .inr ⟨_, hs, h⟩
  | .control _ body => by
    rw [Stmt.hoisted, Stmt.mem_hoistedOf body]
    exact ⟨fun ⟨_, hs, h⟩ => .inner hs h, fun | .inner hs h => ⟨_, hs, h⟩⟩
  | .handler _ body => by
    rw [Stmt.hoisted, Stmt.mem_hoistedOf body]
    exact ⟨fun ⟨_, hs, h⟩ => .inner hs h, fun | .inner hs h => ⟨_, hs, h⟩⟩
  | .vars .lexical _ | .vars .resource _ | .plain _ | .function _ _ _ | .classDecl _ _ | .imports _ _ _
  | .exportDefault _ _ => ⟨nofun, fun | .inner hs _ => nomatch hs⟩

theorem Stmt.mem_hoistedOf : ∀ ss : List Stmt, id ∈ Stmt.hoistedOf ss ↔ ∃ s ∈ ss, s.Hoists id
  | [] => by simp [Stmt.hoistedOf]
  | s :: ss => by simp [Stmt.hoistedOf, Stmt.mem_hoisted s, Stmt.mem_hoistedOf ss]

end

theorem Stmt.mem_lexical (s : Stmt) : id ∈ s.lexical ↔ s.Declares id := by
  constructor
  · intro h
    unfold Stmt.lexical at h
    split at h
    · obtain ⟨_, hd, h⟩ := Declarator.mem_flatMap_idents.1 h
      exact .vars hd h
    · exact List.mem_singleton.1 h ▸ .function
    · exact List.mem_singleton.1 h ▸ .classDecl
    · rw [Option.mem_toList] at h
      exact h ▸ .entity
    · obtain ⟨imported, himported, rfl⟩ := List.mem_map.1 h
      exact .imports himported
    · rw [Option.mem_toList] at h
      exact h ▸ .exportDefault
    · cases h
  · intro h
    cases h with
    | vars hd h => exact Declarator.mem_flatMap_idents.2 ⟨_, hd, h⟩
    | imports himported => exact List.mem_map_of_mem himported
    | function | classDecl | entity | exportDefault => exact List.mem_singleton_self _

end Source

open Source

variable {id : Ident}

theorem Scope.mem_ofBlock {body : List Stmt} : id ∈ Scope.ofBlock body ↔ ∃ s ∈ body, s.Declares id := by
  simp only [Scope.ofBlock, List.mem_flatMap, Stmt.mem_lexical]

theorem Scope.mem_ofProgram {p : Program} :
    id ∈ Scope.ofProgram p ↔ (∃ s ∈ p.body, s.Hoists id) ∨ ∃ s ∈ p.body, s.Declares id := by
  unfold Scope.ofProgram
  split
  · rw [List.mem_append, mem_ofBlock, Stmt.mem_hoistedOf, or_comm]
  · rw [List.mem_append, mem_ofBlock, Stmt.mem_hoistedOf]

theorem Scope.mem_ofFunction {params : List Pattern} {body : List Stmt} : id ∈ Scope.ofFunction (.mk params body) ↔
    (∃ param ∈ params, param.Binds id) ∨ (∃ s ∈ body, s.Hoists id) ∨ ∃ s ∈ body, s.Declares id := by
  rw [ofFunction, List.mem_append, List.mem_append, Pattern.mem_identsOf, Stmt.mem_hoistedOf, mem_ofBlock, or_assoc]

/-! ## Parts that are scopes -/

/-- **A part declares an identifier for what stands in it.** -/
inductive Part.Declares : Part → Ident → Prop
  | scriptVar {p : Program} {s : Stmt} {id : Ident} : s ∈ p.body → s.Hoists id → Declares (.script p) id
  | script {p : Program} {s : Stmt} {id : Ident} : s ∈ p.body → s.Declares id → Declares (.script p) id
  | param {params : List Pattern} {body : List Stmt} {param : Pattern} {id : Ident} :
      param ∈ params → param.Binds id → Declares (.function (.mk params body)) id
  | functionVar {params : List Pattern} {body : List Stmt} {s : Stmt} {id : Ident} :
      s ∈ body → s.Hoists id → Declares (.function (.mk params body)) id
  | function {params : List Pattern} {body : List Stmt} {s : Stmt} {id : Ident} :
      s ∈ body → s.Declares id → Declares (.function (.mk params body)) id
  | ownFunction {span : Span} {id : Ident} {decorators : List Expr} {fn : Function} :
      Declares (.expr (.function span (some id) decorators fn)) id
  | ownClass {span : Span} {id : Ident} {members : List Member} :
      Declares (.expr (.classExpr span (some id) members)) id
  | head {head body : List Stmt} {s : Stmt} {id : Ident} :
      s ∈ head → s.Declares id → Declares (.stmt (.scoped head body)) id
  | handler {param : List Pattern} {body : List Stmt} {part : Pattern} {id : Ident} :
      part ∈ param → part.Binds id → Declares (.stmt (.handler param body)) id
  | block {body : List Stmt} {s : Stmt} {id : Ident} : s ∈ body → s.Declares id → Declares (.block body) id

namespace Part

/-- **The scopes of the walk list what their parts declare.** -/
theorem mem_scope {part : Part} {scope : Scope} (h : part.scope? = some scope) : id ∈ scope ↔ part.Declares id := by
  unfold scope? at h
  split at h
  · cases h
    rw [Scope.mem_ofProgram]
    constructor
    · rintro (⟨s, hs, h⟩ | ⟨s, hs, h⟩)
      · exact .scriptVar hs h
      · exact .script hs h
    · rintro (⟨hs, h⟩ | ⟨hs, h⟩)
      · exact .inl ⟨_, hs, h⟩
      · exact .inr ⟨_, hs, h⟩
  · rename_i f
    cases h
    obtain ⟨params, body⟩ := f
    rw [Scope.mem_ofFunction]
    constructor
    · rintro (⟨param, hparam, h⟩ | ⟨s, hs, h⟩ | ⟨s, hs, h⟩)
      · exact .param hparam h
      · exact .functionVar hs h
      · exact .function hs h
    · rintro (_ | _ | ⟨hparam, h⟩ | ⟨hs, h⟩ | ⟨hs, h⟩)
      · exact .inl ⟨_, hparam, h⟩
      · exact .inr (.inl ⟨_, hs, h⟩)
      · exact .inr (.inr ⟨_, hs, h⟩)
  · cases h
    rw [Option.mem_toList]
    exact ⟨fun h => h ▸ .ownFunction, fun | .ownFunction => rfl⟩
  · cases h
    rw [Option.mem_toList]
    exact ⟨fun h => h ▸ .ownClass, fun | .ownClass => rfl⟩
  · cases h
    rw [Scope.mem_ofBlock]
    exact ⟨fun ⟨_, hs, h⟩ => .head hs h, fun | .head hs h => ⟨_, hs, h⟩⟩
  · cases h
    rw [Pattern.mem_identsOf]
    exact ⟨fun ⟨_, hpart, h⟩ => .handler hpart h, fun | .handler hpart h => ⟨_, hpart, h⟩⟩
  · cases h
    rw [Scope.mem_ofBlock]
    exact ⟨fun ⟨_, hs, h⟩ => .block hs h, fun | .block hs h => ⟨_, hs, h⟩⟩
  · cases h

theorem Declares.scope {part : Part} (h : part.Declares id) : ∃ scope, part.scope? = some scope ∧ id ∈ scope := by
  have hsome : part.scope?.isSome := by cases h <;> rfl
  obtain ⟨scope, hscope⟩ := Option.isSome_iff_exists.1 hsome
  exact ⟨scope, hscope, (mem_scope hscope).2 h⟩

end Part

/-! ## Declared identifiers among the nodes -/

section Nodes

variable {n : Node}

theorem Source.Pattern.mem_nodesOf {p : Pattern} {ps : List Pattern} (hp : p ∈ ps) (hn : n ∈ p.nodes) :
    n ∈ Pattern.nodesOf ps := by
  rw [Pattern.nodesOf_eq]
  exact List.mem_flatMap_of_mem hp hn

theorem Source.Stmt.mem_nodesOf {s : Stmt} {ss : List Stmt} (hs : s ∈ ss) (hn : n ∈ s.nodes) : n ∈ Stmt.nodesOf ss := by
  rw [Stmt.nodesOf_eq]
  exact List.mem_flatMap_of_mem hs hn

theorem Source.Stmt.mem_nodes_of_inner {s deeper : Stmt} (h : deeper ∈ s.inner) (hn : n ∈ deeper.nodes) :
    n ∈ s.nodes := by
  unfold Stmt.inner at h
  split at h
  · exact List.mem_append_right _ (List.mem_append_right _ (Stmt.mem_nodesOf h hn))
  · exact List.mem_append_right _ (Stmt.mem_nodesOf h hn)
  · exact List.mem_append_right _ (Stmt.mem_nodesOf h hn)
  · rcases List.mem_append.1 h with h | h
    · exact List.mem_append_left _ (Stmt.mem_nodesOf h hn)
    · exact List.mem_append_right _ (Stmt.mem_nodesOf h hn)
  · cases h

end Nodes

theorem Source.Pattern.Binds.mem_nodes {p : Pattern} (h : p.Binds id) : .name id ∈ p.nodes := by
  induction h with
  | ident => exact List.mem_singleton_self _
  | group hpart _ ih => exact Pattern.mem_nodesOf hpart ih

theorem Source.Declarator.mem_nodes {d : Declarator} {decls : List Declarator} (hd : d ∈ decls)
    (h : d.target.Binds id) : .name id ∈ Declarator.nodesOf decls := by
  have hnode : .name id ∈ d.nodes := by
    cases d with
    | bare target => exact h.mem_nodes
    | init target value => exact List.mem_append_left _ h.mem_nodes
  rw [Declarator.nodesOf_eq]
  exact List.mem_flatMap_of_mem hd hnode

theorem Source.Stmt.Hoists.mem_nodes {s : Stmt} (h : s.Hoists id) : .name id ∈ s.nodes := by
  induction h with
  | vars hd h => exact Declarator.mem_nodes hd h
  | inner hdeeper _ ih => exact Stmt.mem_nodes_of_inner hdeeper ih

theorem Source.Stmt.Declares.mem_nodes {s : Stmt} (h : s.Declares id) : .name id ∈ s.nodes := by
  cases h with
  | vars hd h => exact Declarator.mem_nodes hd h
  | function | classDecl | entity => simp
  | imports himported => exact List.mem_map_of_mem (f := fun n : ImportedName => Node.name n.ident) himported
  | exportDefault =>
    -- the name of an exported function or class is a node of the value itself
    rename_i value
    rw [Stmt.nodes]
    by_cases hown : some id = value.ownName
    · refine List.mem_append_right _ ?_
      cases value <;> simp_all [Expr.ownName]
    · rw [if_neg hown]
      exact List.mem_append_left _ (List.mem_singleton_self _)

/-- **A declared identifier stands in the part that declares it.** -/
theorem Part.Declares.mem_nodes {part : Part} (h : part.Declares id) : .name id ∈ part.nodes := by
  cases h with
  | scriptVar hs h => exact Stmt.mem_nodesOf hs h.mem_nodes
  | script hs h => exact Stmt.mem_nodesOf hs h.mem_nodes
  | param hparam h => exact List.mem_append_left _ (Pattern.mem_nodesOf hparam h.mem_nodes)
  | functionVar hs h => exact List.mem_append_right _ (Stmt.mem_nodesOf hs h.mem_nodes)
  | function hs h => exact List.mem_append_right _ (Stmt.mem_nodesOf hs h.mem_nodes)
  | ownFunction | ownClass => exact List.mem_append_left _ (List.mem_singleton_self _)
  | head hs h => exact List.mem_append_left _ (Stmt.mem_nodesOf hs h.mem_nodes)
  | handler hpart h => exact List.mem_append_left _ (Pattern.mem_nodesOf hpart h.mem_nodes)
  | block hs h => exact Stmt.mem_nodesOf hs h.mem_nodes

end Localizer
