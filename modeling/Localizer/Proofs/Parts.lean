import Mathlib.Data.List.Nodup
import Localizer.Proofs.Layout
/-!
# Parts — the places in a script

A place is the way from a script down to one of its parts: at every step the index of the part to go on with.  What the
walk comes across is exactly what the parts at all places hold themselves, each with the scopes that the parts on the
way open (`Part.mem_visits`), and it comes to every place once (`Part.exists_places`).  Where the nodes of a script are
in good order, those of two parts stand apart unless one part is inside the other (`Part.apart`).
-/
namespace Localizer

open Source

/-- **A part of a script**: the script itself or anything that stands in it. -/
inductive Part where
  | script (p : Program)
  | expr (e : Expr)
  | member (m : Member)
  | pattern (p : Pattern)
  | function (f : Function)
  | declarator (d : Declarator)
  | stmt (s : Stmt)
  /-- the block of a handler or of a class -/
  | block (body : List Stmt)

/-- **The way down to a part**: the index to take at every step. -/
abbrev Address := List Nat

/-! ## The parts of a part -/

def Source.Expr.subparts : Expr → List Part
  | .ident _ | .string _ _ | .hole _ => []
  | .paren _ inner | .member _ inner _ | .spread _ inner => [.expr inner]
  | .call _ callee args => .expr callee :: args.map .expr
  | .array _ parts | .slot _ parts | .compound _ parts => parts.map .expr
  | .object _ members | .classExpr _ _ members => members.map .member
  | .function _ _ decorators fn => decorators.map .expr ++ [.function fn]
  | .arrow _ fn => [.function fn]
  | .assign _ target value => [.pattern target, .expr value]

def Source.Member.subparts : Member → List Part
  | .keyed _ computed value => computed.map .expr ++ [.expr value]
  | .method exprs fn => exprs.map .expr ++ [.function fn]
  | .parts exprs => exprs.map .expr
  | .index key => [.pattern key]
  | .block body => [.block body]

def Source.Pattern.subparts : Pattern → List Part
  | .ident _ => []
  | .expr e => [.expr e]
  | .group parts => parts.map .pattern

def Source.Function.subparts : Function → List Part
  | .mk params body => params.map .pattern ++ body.map .stmt

def Source.Declarator.subparts : Declarator → List Part
  | .bare target => [.pattern target]
  | .init target value => [.pattern target, .expr value]

def Source.Stmt.subparts : Stmt → List Part
  | .plain parts => parts.map .expr
  | .vars _ decls => decls.map .declarator
  | .function _ decorators fn => decorators.map .expr ++ [.function fn]
  | .classDecl _ members => members.map .member
  | .entity _ parts body | .control parts body => parts.map .expr ++ body.map .stmt
  | .scoped head body => head.map .stmt ++ body.map .stmt
  | .handler param body => param.map .pattern ++ [.block body]
  | .imports _ _ _ => []
  | .exportDefault _ value => [.expr value]

namespace Part

def subparts : Part → List Part
  | .script p => p.body.map .stmt
  | .expr e => e.subparts
  | .member m => m.subparts
  | .pattern p => p.subparts
  | .function f => f.subparts
  | .declarator d => d.subparts
  | .stmt s => s.subparts
  | .block body => body.map .stmt

theorem sizeOf_lt {part inner : Part} (h : inner ∈ part.subparts) : sizeOf inner < sizeOf part := by
  unfold subparts at h
  split at h
  case h_1 p => cases p; grind [→ List.sizeOf_lt_of_mem]
  case h_2 e => cases e <;> grind [→ List.sizeOf_lt_of_mem, Expr.subparts]
  case h_3 m => cases m <;> grind [→ List.sizeOf_lt_of_mem, Member.subparts]
  case h_4 p => cases p <;> grind [→ List.sizeOf_lt_of_mem, Pattern.subparts]
  case h_5 f => cases f; grind [→ List.sizeOf_lt_of_mem, Function.subparts]
  case h_6 d => cases d <;> grind [→ List.sizeOf_lt_of_mem, Declarator.subparts]
  case h_7 s => cases s <;> grind [→ List.sizeOf_lt_of_mem, Stmt.subparts]
  case h_8 body => grind [→ List.sizeOf_lt_of_mem]

/-- **What holds of a part if it holds of all that stands in it** holds of every part. -/
theorem induction {motive : Part → Prop} (step : ∀ part, (∀ inner ∈ part.subparts, motive inner) → motive part)
    (part : Part) : motive part :=
  step part fun inner _ => induction step inner
termination_by sizeOf part
decreasing_by exact sizeOf_lt ‹_›

/-! ## Places -/

/-- **The part at a place.** -/
def at? : Part → Address → Option Part
  | part, [] => some part
  | part, i :: place => part.subparts[i]?.bind (·.at? place)

/-- **The scope that a part is for what stands in it**, if it is one. -/
def scope? : Part → Option Scope
  | .script p => some (Scope.ofProgram p)
  | .function f => some (Scope.ofFunction f)
  | .expr (.function _ name _ _) | .expr (.classExpr _ name _) => some name.toList
  | .stmt (.scoped head _) => some (Scope.ofBlock head)
  | .stmt (.handler param _) => some (Pattern.identsOf param)
  | .block body => some (Scope.ofBlock body)
  | _ => none

/-- **The scopes inside a part**, innermost first, if these are around it. -/
def within (part : Part) (scopes : List Scope) : List Scope := part.scope?.toList ++ scopes

/-- **The scopes inside the part at a place.** -/
def scopesAt (scopes : List Scope) : Part → Address → List Scope
  | part, [] => part.within scopes
  | part, i :: place =>
    match part.subparts[i]? with
    | some inner => inner.scopesAt (part.within scopes) place
    | none => []

/-! ## The walk, part by part -/

/-- **What the walk comes across in a part**, inside these scopes. -/
def visits (scopes : List Scope) : Part → List Visit
  | .script p => .scope (Scope.ofProgram p :: scopes) :: Stmt.visitsOf (Scope.ofProgram p :: scopes) p.body
  | .expr e => e.visits scopes
  | .member m => m.visits scopes
  | .pattern p => p.visits scopes
  | .function f => f.visits scopes
  | .declarator d => d.visits scopes
  | .stmt s => s.visits scopes
  | .block body => .scope (Scope.ofBlock body :: scopes) :: Stmt.visitsOf (Scope.ofBlock body :: scopes) body

/-- **What a part is for the walk itself**, apart from what stands in it. -/
def own (scopes : List Scope) : Part → List Visit
  | .expr (.ident id) => [.name id false scopes]
  | .expr (.call span callee args) => [.call span callee args]
  | .pattern (.ident id) => [.name id true scopes]
  | .declarator d => [.declarator d]
  | .stmt (.entity name _ _) => name.toList.map (.name · false scopes)
  | .stmt (.imports typesOnly source names) => [.imports typesOnly source names]
  | part => if part.scope?.isSome then [.scope scopes] else []

end Part

theorem Source.Expr.visitsOf_eq (scopes : List Scope) (es : List Expr) :
    Expr.visitsOf scopes es = es.flatMap (Expr.visits scopes) := by
  induction es with
  | nil => rfl
  | cons e es ih => rw [Expr.visitsOf, ih, List.flatMap_cons]

theorem Source.Member.visitsOf_eq (scopes : List Scope) (ms : List Member) :
    Member.visitsOf scopes ms = ms.flatMap (Member.visits scopes) := by
  induction ms with
  | nil => rfl
  | cons m ms ih => rw [Member.visitsOf, ih, List.flatMap_cons]

theorem Source.Pattern.visitsOf_eq (scopes : List Scope) (ps : List Pattern) :
    Pattern.visitsOf scopes ps = ps.flatMap (Pattern.visits scopes) := by
  induction ps with
  | nil => rfl
  | cons p ps ih => rw [Pattern.visitsOf, ih, List.flatMap_cons]

theorem Source.Declarator.visitsOf_eq (scopes : List Scope) (ds : List Declarator) :
    Declarator.visitsOf scopes ds = ds.flatMap (Declarator.visits scopes) := by
  induction ds with
  | nil => rfl
  | cons d ds ih => rw [Declarator.visitsOf, ih, List.flatMap_cons]

theorem Source.Stmt.visitsOf_eq (scopes : List Scope) (ss : List Stmt) :
    Stmt.visitsOf scopes ss = ss.flatMap (Stmt.visits scopes) := by
  induction ss with
  | nil => rfl
  | cons s ss ih => rw [Stmt.visitsOf, ih, List.flatMap_cons]

namespace Part

/-- **The walk goes through a part** and then through all that stands in it, inside the scope that the part is. -/
theorem visits_eq (part : Part) (scopes : List Scope) :
    part.visits scopes = part.own (part.within scopes) ++ part.subparts.flatMap (visits (part.within scopes)) := by
  cases part with
  | script p => simp [visits, own, within, scope?, subparts, List.flatMap_map, Stmt.visitsOf_eq]
  | expr e =>
    cases e <;> simp [visits, own, within, scope?, subparts, Expr.subparts, Expr.visits, List.flatMap_map,
      Expr.visitsOf_eq, Member.visitsOf_eq]
  | member m =>
    cases m <;> simp [visits, own, within, scope?, subparts, Member.subparts, Member.visits, List.flatMap_map,
      Expr.visitsOf_eq, Stmt.visitsOf_eq]
  | pattern p =>
    cases p <;> simp [visits, own, within, scope?, subparts, Pattern.subparts, Pattern.visits, List.flatMap_map,
      Pattern.visitsOf_eq]
  | function f =>
    cases f
    simp [visits, own, within, scope?, subparts, Function.subparts, Function.visits, List.flatMap_map,
      Pattern.visitsOf_eq, Stmt.visitsOf_eq]
  | declarator d =>
    cases d <;> simp [visits, own, within, scope?, subparts, Declarator.subparts, Declarator.visits]
  | stmt s =>
    cases s <;> simp [visits, own, within, scope?, subparts, Stmt.subparts, Stmt.visits, List.flatMap_map,
      Expr.visitsOf_eq, Member.visitsOf_eq, Pattern.visitsOf_eq, Declarator.visitsOf_eq, Stmt.visitsOf_eq]
  | block body => simp [visits, own, within, scope?, subparts, List.flatMap_map, Stmt.visitsOf_eq]

/-- **A part is a name** that is read, or written. -/
inductive Names : Part → Ident → Bool → Prop
  | expr {id : Ident} : Names (.expr (.ident id)) id false
  | pattern {id : Ident} : Names (.pattern (.ident id)) id true
  | entity {id : Ident} {parts : List Expr} {body : List Stmt} : Names (.stmt (.entity (some id) parts body)) id false

section Own

variable {part : Part} {scopes scopes' : List Scope}

theorem mem_own_scope : .scope scopes' ∈ part.own scopes ↔ scopes' = scopes ∧ part.scope?.isSome := by
  unfold own
  split
  case h_7 => split <;> simp [*]
  all_goals simp [scope?]

theorem mem_own_name {id : Ident} {written : Bool} :
    .name id written scopes' ∈ part.own scopes ↔ scopes' = scopes ∧ part.Names id written := by
  constructor
  · intro h
    unfold own at h
    split at h
    · cases List.mem_singleton.1 h
      exact ⟨rfl, .expr⟩
    · cases List.mem_singleton.1 h
    · cases List.mem_singleton.1 h
      exact ⟨rfl, .pattern⟩
    · cases List.mem_singleton.1 h
    · obtain ⟨id, hid, h⟩ := List.mem_map.1 h
      cases h
      rw [Option.mem_toList] at hid
      cases hid
      exact ⟨rfl, .entity⟩
    · cases List.mem_singleton.1 h
    · split at h
      · cases List.mem_singleton.1 h
      · cases h
  · rintro ⟨rfl, h⟩
    cases h <;> exact List.mem_singleton_self _

theorem mem_own_call {span : Span} {callee : Expr} {args : List Expr} :
    .call span callee args ∈ part.own scopes ↔ part = .expr (.call span callee args) := by
  constructor
  · intro h
    unfold own at h
    split at h <;> simp_all
  · rintro rfl
    exact List.mem_singleton_self _

theorem mem_own_declarator {d : Declarator} : .declarator d ∈ part.own scopes ↔ part = .declarator d := by
  constructor
  · intro h
    unfold own at h
    split at h <;> simp_all
  · rintro rfl
    exact List.mem_singleton_self _

end Own

/-- **The walk comes across exactly what the parts at all places are for it.** -/
theorem mem_visits {part : Part} {scopes : List Scope} {v : Visit} :
    v ∈ part.visits scopes ↔
      ∃ place inner, part.at? place = some inner ∧ v ∈ inner.own (part.scopesAt scopes place) := by
  induction part using Part.induction generalizing scopes with
  | step part ih =>
  rw [visits_eq, List.mem_append, List.mem_flatMap]
  constructor
  · rintro (hv | ⟨inner, hinner, hv⟩)
    · exact ⟨[], part, rfl, hv⟩
    · obtain ⟨place, found, hat, hfound⟩ := (ih inner hinner).1 hv
      obtain ⟨i, hi⟩ := List.mem_iff_getElem?.1 hinner
      exact ⟨i :: place, found, by rw [at?, hi]; exact hat, by rw [scopesAt, hi]; exact hfound⟩
  · rintro ⟨place, found, hat, hfound⟩
    cases place with
    | nil =>
      cases hat
      exact .inl hfound
    | cons i place =>
      obtain ⟨inner, hi, hat⟩ := Option.bind_eq_some_iff.1 hat
      have hinner := List.mem_of_getElem? hi
      rw [scopesAt, hi] at hfound
      exact .inr ⟨inner, hinner, (ih inner hinner).2 ⟨place, found, hat, hfound⟩⟩

/-- **What the part at a place is for the walk**, if there is one. -/
def ownAt (part : Part) (scopes : List Scope) (place : Address) : List Visit :=
  ((part.at? place).map (own (part.scopesAt scopes place))).getD []

theorem ownAt_cons {part inner : Part} {i : Nat} (h : part.subparts[i]? = some inner) (scopes : List Scope)
    (place : Address) : part.ownAt scopes (i :: place) = inner.ownAt (part.within scopes) place := by
  unfold ownAt
  rw [at?, h, scopesAt, h]
  rfl

/-- **All places of a part**, in the order in which the walk comes to them: to none before those above it. -/
structure Lists (part : Part) (places : List Address) : Prop where
  ordered : places.Pairwise fun place later => ¬ later <+: place
  mem_iff : ∀ place, place ∈ places ↔ (part.at? place).isSome
  visits_eq : ∀ scopes, part.visits scopes = places.flatMap (part.ownAt scopes)

theorem Lists.nodup {part : Part} {places : List Address} (h : part.Lists places) : places.Nodup := by
  refine h.ordered.imp fun {place later} hnot heq => hnot ?_
  subst heq
  exact List.prefix_rfl

/-- **The walk goes from place to place**, to each one once. -/
theorem exists_places (part : Part) : ∃ places, part.Lists places := by
  induction part using Part.induction with
  | step part ih =>
  have hsome : ∀ i : Nat, ∃ places, ∀ inner : Part, part.subparts[i]? = some inner → inner.Lists places := by
    intro i
    cases hi : part.subparts[i]? with
    | none => exact ⟨[], fun _ hinner => by cases hinner⟩
    | some inner =>
      obtain ⟨places, hplaces⟩ := ih inner (List.mem_of_getElem? hi)
      refine ⟨places, fun other hother => ?_⟩
      cases hother
      exact hplaces
  choose below hbelow using hsome
  have hindexed : ∀ {entry : Part × Nat}, entry ∈ part.subparts.zipIdx → entry.1.Lists (below entry.2) :=
    fun hentry => hbelow _ _ (List.mem_zipIdx_iff_getElem?.1 hentry)
  -- the part itself, then the places of each part in it
  refine ⟨[] :: part.subparts.zipIdx.flatMap fun entry => (below entry.2).map (entry.2 :: ·), ?_, ?_, ?_⟩
  · refine List.pairwise_cons.2 ⟨fun later hlater hnil => ?_, List.pairwise_flatMap.2 ⟨fun entry hentry => ?_, ?_⟩⟩
    · obtain ⟨_, -, hlater⟩ := List.mem_flatMap.1 hlater
      obtain ⟨_, -, rfl⟩ := List.mem_map.1 hlater
      cases List.prefix_nil.1 hnil
    · exact List.pairwise_map.2 ((hindexed hentry).ordered.imp fun hnot h => hnot ((List.prefix_cons_inj _).1 h))
    · have hdistinct : (part.subparts.zipIdx.map (·.2)).Pairwise (· ≠ ·) := by
        rw [List.zipIdx_map_snd]
        exact List.nodup_range'
      refine (List.pairwise_map.1 hdistinct).imp fun {a b} hne place ha later hb hbelow => ?_
      obtain ⟨_, -, rfl⟩ := List.mem_map.1 ha
      obtain ⟨_, -, rfl⟩ := List.mem_map.1 hb
      exact hne (List.cons_prefix_cons.1 hbelow).1.symm
  · intro place
    simp only [List.mem_cons, List.mem_flatMap, List.mem_map]
    cases place with
    | nil => simp [at?]
    | cons i place =>
      rw [at?]
      constructor
      · rintro (hnil | ⟨entry, hentry, _, hplace, heq⟩)
        · cases hnil
        · obtain ⟨rfl, rfl⟩ := List.cons.inj heq
          rw [List.mem_zipIdx_iff_getElem?.1 hentry]
          exact ((hindexed hentry).mem_iff _).1 hplace
      · intro hat
        cases hi : part.subparts[i]? with
        | none =>
          rw [hi] at hat
          cases hat
        | some inner =>
          rw [hi] at hat
          refine .inr ⟨(inner, i), List.mem_zipIdx_iff_getElem?.2 hi, place, ?_, rfl⟩
          exact ((hbelow i inner hi).mem_iff place).2 hat
  · intro scopes
    rw [visits_eq, List.flatMap_cons, List.flatMap_assoc]
    congr 1
    have hfst : part.subparts = part.subparts.zipIdx.map (·.1) := (List.zipIdx_map_fst 0 _).symm
    conv_lhs => rw [hfst, List.flatMap_map]
    refine List.flatMap_congr fun entry hentry => ?_
    rw [(hindexed hentry).visits_eq, List.flatMap_map]
    exact List.flatMap_congr fun place _ => (ownAt_cons (List.mem_zipIdx_iff_getElem?.1 hentry) scopes place).symm

/-! ## Places above and below each other -/

theorem at?_append (part : Part) (place rest : Address) :
    part.at? (place ++ rest) = (part.at? place).bind (·.at? rest) := by
  induction place generalizing part with
  | nil => rfl
  | cons i place ih =>
    simp only [List.cons_append, at?, Option.bind_assoc]
    congr 1
    funext inner
    exact ih inner

theorem scopesAt_append {part inner : Part} {scopes : List Scope} {place : Address} (h : part.at? place = some inner)
    (i : Nat) (rest : Address) : part.scopesAt scopes (place ++ i :: rest) =
      match inner.subparts[i]? with
      | some found => found.scopesAt (part.scopesAt scopes place) rest
      | none => [] := by
  induction place generalizing part scopes with
  | nil =>
    cases h
    rfl
  | cons j place ih =>
    obtain ⟨next, hj, hat⟩ := Option.bind_eq_some_iff.1 h
    simp only [List.cons_append, scopesAt, hj]
    exact ih hat

/-- **There are at least as many scopes at a place further down**, and more if the part there is a scope. -/
theorem length_scopesAt {part inner : Part} {place : Address} (h : part.at? place = some inner) (scopes : List Scope) :
    scopes.length + inner.scope?.toList.length ≤ (part.scopesAt scopes place).length := by
  induction place generalizing part scopes with
  | nil =>
    cases h
    simp only [scopesAt, within, List.length_append]
    omega
  | cons i place ih =>
    obtain ⟨next, hi, hat⟩ := Option.bind_eq_some_iff.1 h
    have hnext := ih hat (part.within scopes)
    have hwithin : (part.within scopes).length = part.scope?.toList.length + scopes.length := List.length_append
    simp only [scopesAt, hi]
    omega

/-! ## Nodes, part by part -/

def nodes : Part → List Node
  | .script p => p.nodes
  | .expr e => e.nodes
  | .member m => m.nodes
  | .pattern p => p.nodes
  | .function f => f.nodes
  | .declarator d => d.nodes
  | .stmt s => s.nodes
  | .block body => Stmt.nodesOf body

/-- **The nodes that a part itself is**, apart from those that stand in it. -/
def heads : Part → List Node
  | .expr (.ident id) | .pattern (.ident id) => [.name id]
  | .expr (.call span callee args) => [.call span callee args]
  | .expr (.function _ name _ _) | .expr (.classExpr _ name _) => name.toList.map .name
  | .stmt (.function name _ _) | .stmt (.classDecl name _) => [.name name]
  | .stmt (.entity name _ _) => name.toList.map .name
  | .stmt (.imports _ _ names) => names.map (.name ·.ident)
  | .stmt (.exportDefault name value) => if name = value.ownName then [] else name.toList.map .name
  | _ => []

theorem nodes_eq (part : Part) : part.nodes = part.heads ++ part.subparts.flatMap nodes := by
  cases part with
  | script p => simp [nodes, heads, subparts, Program.nodes, List.flatMap_map]
  | expr e => cases e <;> simp [nodes, heads, subparts, Expr.subparts, List.flatMap_map]
  | member m => cases m <;> simp [nodes, heads, subparts, Member.subparts, List.flatMap_map]
  | pattern p => cases p <;> simp [nodes, heads, subparts, Pattern.subparts, List.flatMap_map]
  | function f =>
    cases f
    simp [nodes, heads, subparts, Function.subparts, List.flatMap_map]
  | declarator d => cases d <;> simp [nodes, heads, subparts, Declarator.subparts]
  | stmt s => cases s <;> simp [nodes, heads, subparts, Stmt.subparts, List.flatMap_map]
  | block body => simp [nodes, heads, subparts, List.flatMap_map]

theorem Names.mem_heads {part : Part} {id : Ident} {written : Bool} (h : part.Names id written) :
    .name id ∈ part.heads := by
  cases h <;> exact List.mem_singleton_self _

theorem Names.mem_nodes {part : Part} {id : Ident} {written : Bool} (h : part.Names id written) :
    .name id ∈ part.nodes := by
  rw [nodes_eq]
  exact List.mem_append_left _ h.mem_heads

theorem Names.unique {part : Part} {id id' : Ident} {written written' : Bool} (h : part.Names id written)
    (h' : part.Names id' written') : id = id' ∧ written = written' := by
  cases h <;> cases h' <;> exact ⟨rfl, rfl⟩

theorem nodes_sublist {part inner : Part} {place : Address} (h : part.at? place = some inner) :
    inner.nodes.Sublist part.nodes := by
  induction place generalizing part with
  | nil =>
    cases h
    exact .refl _
  | cons i place ih =>
    obtain ⟨next, hi, hat⟩ := Option.bind_eq_some_iff.1 h
    have hnext : next.nodes.Sublist (part.subparts.flatMap nodes) := by
      rw [List.flatMap_def]
      exact List.sublist_flatten_of_mem (List.mem_map_of_mem (List.mem_of_getElem? hi))
    rw [nodes_eq part]
    exact (ih hat).trans (hnext.trans (List.sublist_append_right ..))

theorem apart_of_ne {part left right : Part} (hpart : part.nodes.Pairwise Node.Apart) {i j : Nat} (hij : i ≠ j)
    (hi : part.subparts[i]? = some left) (hj : part.subparts[j]? = some right) {n n' : Node} (hn : n ∈ left.nodes)
    (hn' : n' ∈ right.nodes) : n.Apart n' := by
  rw [nodes_eq, List.pairwise_append] at hpart
  have hparts := List.pairwise_iff_getElem.1 (List.pairwise_flatMap.1 hpart.2.1).2
  obtain ⟨hilt, rfl⟩ := List.getElem?_eq_some_iff.1 hi
  obtain ⟨hjlt, rfl⟩ := List.getElem?_eq_some_iff.1 hj
  rcases Nat.lt_or_gt_of_ne hij with hlt | hlt
  · exact hparts i j hilt hjlt hlt n hn n' hn'
  · exact (hparts j i hjlt hilt hlt n' hn' n hn).symm

/-- **The nodes of two parts stand apart**, unless one part is inside the other. -/
theorem apart {part : Part} (hpart : part.nodes.Pairwise Node.Apart) {place place' : Address} {inner inner' : Part}
    (h : part.at? place = some inner) (h' : part.at? place' = some inner') {n n' : Node} (hn : n ∈ inner.nodes)
    (hn' : n' ∈ inner'.nodes) : place <+: place' ∨ place' <+: place ∨ n.Apart n' := by
  -- down from the script, as long as both ways go into the same part
  induction place generalizing part place' with
  | nil => exact .inl List.nil_prefix
  | cons i place ih =>
  cases place' with
  | nil => exact .inr (.inl List.nil_prefix)
  | cons j place' =>
  obtain ⟨next, hi, hat⟩ := Option.bind_eq_some_iff.1 h
  obtain ⟨next', hj, hat'⟩ := Option.bind_eq_some_iff.1 h'
  by_cases hij : i = j
  · subst hij
    obtain rfl : next = next' := Option.some.inj (hi.symm.trans hj)
    have hnext : part.at? [i] = some next := by rw [at?, hi]; rfl
    rcases ih (hpart.sublist (nodes_sublist hnext)) hat hat' with hbelow | hbelow | hapart
    · exact .inl ((List.prefix_cons_inj i).2 hbelow)
    · exact .inr (.inl ((List.prefix_cons_inj i).2 hbelow))
    · exact .inr (.inr hapart)
  · exact .inr (.inr (apart_of_ne hpart hij hi hj ((nodes_sublist hat).subset hn) ((nodes_sublist hat').subset hn')))

theorem apart_below {part : Part} (hpart : part.nodes.Pairwise Node.Apart) {place place' : Address}
    {inner inner' : Part} (hbelow : place <+: place') (hne : place ≠ place') (h : part.at? place = some inner)
    (h' : part.at? place' = some inner') {n n' : Node} (hn : n ∈ inner.heads) (hn' : n' ∈ inner'.nodes) :
    n.Apart n' := by
  obtain ⟨rest, rfl⟩ := hbelow
  rw [at?_append, h, Option.bind_some] at h'
  cases rest with
  | nil => exact absurd (List.append_nil place).symm hne
  | cons i rest =>
  obtain ⟨next, hi, hat⟩ := Option.bind_eq_some_iff.1 h'
  have hinner := hpart.sublist (nodes_sublist h)
  rw [nodes_eq, List.pairwise_append] at hinner
  refine hinner.2.2 n hn n' (List.mem_flatMap_of_mem (List.mem_of_getElem? hi) ?_)
  exact (nodes_sublist hat).subset hn'

theorem heads_apart {part : Part} (hpart : part.nodes.Pairwise Node.Apart) {place place' : Address}
    {inner inner' : Part} (hne : place ≠ place') (h : part.at? place = some inner)
    (h' : part.at? place' = some inner') {n n' : Node} (hn : n ∈ inner.heads) (hn' : n' ∈ inner'.heads) :
    n.Apart n' := by
  have hmem : n ∈ inner.nodes := by rw [nodes_eq]; exact List.mem_append_left _ hn
  have hmem' : n' ∈ inner'.nodes := by rw [nodes_eq]; exact List.mem_append_left _ hn'
  rcases apart hpart h h' hmem hmem' with hbelow | hbelow | hapart
  · exact apart_below hpart hbelow hne h h' hn hmem'
  · exact (apart_below hpart hbelow (Ne.symm hne) h' h hn' hmem).symm
  · exact hapart

end Part
end Localizer
