import Mathlib.Data.List.Perm.Subperm
import Localizer.Scope.Visits
import Localizer.Source.Scanning
/-!
# Layout — how the names and calls of a script lie in its text

`nodes` lists the names and calls of a tree, at any depth: those that the walk comes across (`sublist_visits`) and the
names that are only declared, of functions, classes and imports.
`Laid whole lo hi ns` says that the nodes `ns` lie between two offsets in good order: the arguments of a call stand apart
from each other behind its callee, and any two nodes either stand apart or one is inside the callee or an argument of
the other.  A call without arguments ends with its parentheses, between which nothing stands but blank space and comments
(`Node.Closed`).  Such lists can be joined where one ends before the other begins (`Laid.append`), and a call around laid
parts is laid itself (`Laid.call`).
-/
namespace Localizer

open Source
open Text (byteLength Boundary)

/-- **A name or a call of the tree.** -/
inductive Node where
  | name (id : Ident)
  | call (span : Span) (callee : Expr) (args : List Expr)

/-- **The node that a visit is**, if it is one. -/
def Visit.node? : Visit → Option Node
  | .name id _ _ => some (.name id)
  | .call span callee args => some (.call span callee args)
  | _ => none

/-- **The nodes among visits.** -/
def nodesOf (visits : List Visit) : List Node := visits.filterMap Visit.node?

@[simp] theorem nodesOf_nil : nodesOf [] = [] := rfl

@[simp] theorem nodesOf_append (a b : List Visit) : nodesOf (a ++ b) = nodesOf a ++ nodesOf b := List.filterMap_append

@[simp] theorem nodesOf_scope (scopes : List Scope) (vs : List Visit) : nodesOf (.scope scopes :: vs) = nodesOf vs := rfl

@[simp] theorem nodesOf_name (id : Ident) (written : Bool) (scopes : List Scope) (vs : List Visit) :
    nodesOf (.name id written scopes :: vs) = .name id :: nodesOf vs := rfl

@[simp] theorem nodesOf_call (span : Span) (callee : Expr) (args : List Expr) (vs : List Visit) :
    nodesOf (.call span callee args :: vs) = .call span callee args :: nodesOf vs := rfl

@[simp] theorem nodesOf_declarator (d : Declarator) (vs : List Visit) : nodesOf (.declarator d :: vs) = nodesOf vs := rfl

@[simp] theorem nodesOf_imports (typesOnly : Bool) (source : Option String) (names : List ImportedName)
    (vs : List Visit) : nodesOf (.imports typesOnly source names :: vs) = nodesOf vs := rfl

@[simp] theorem nodesOf_names (name : Option Ident) (scopes : List Scope) :
    nodesOf (name.toList.map (.name · false scopes)) = name.toList.map .name := by
  cases name <;> rfl

/-! ## The nodes of each kind of tree -/

/-- **The name that a function or class gives itself.** -/
def Source.Expr.ownName : Expr → Option Ident
  | .function _ name _ _ => name
  | .classExpr _ name _ => name
  | _ => none

mutual

def Source.Expr.nodes : Expr → List Node
  | .ident id => [.name id]
  | .string _ _ => []
  | .paren _ inner => inner.nodes
  | .member _ object _ => object.nodes
  | .call span callee args => .call span callee args :: (callee.nodes ++ Expr.nodesOf args)
  | .array _ elements => Expr.nodesOf elements
  | .object _ members => Member.nodesOf members
  | .function _ name decorators fn => name.toList.map .name ++ (Expr.nodesOf decorators ++ fn.nodes)
  | .arrow _ fn => fn.nodes
  | .classExpr _ name members => name.toList.map .name ++ Member.nodesOf members
  | .assign _ target value => target.nodes ++ value.nodes
  | .spread _ inner => inner.nodes
  | .hole _ => []
  | .slot _ parts | .compound _ parts => Expr.nodesOf parts

def Source.Expr.nodesOf : List Expr → List Node
  | [] => []
  | e :: es => e.nodes ++ Expr.nodesOf es

def Source.Member.nodes : Member → List Node
  | .keyed _ computed value => Expr.nodesOf computed ++ value.nodes
  | .method parts fn => Expr.nodesOf parts ++ fn.nodes
  | .parts parts => Expr.nodesOf parts
  | .index key => key.nodes
  | .block body => Stmt.nodesOf body

def Source.Member.nodesOf : List Member → List Node
  | [] => []
  | m :: ms => m.nodes ++ Member.nodesOf ms

def Source.Pattern.nodes : Pattern → List Node
  | .ident id => [.name id]
  | .expr e => e.nodes
  | .group parts => Pattern.nodesOf parts

def Source.Pattern.nodesOf : List Pattern → List Node
  | [] => []
  | p :: ps => p.nodes ++ Pattern.nodesOf ps

def Source.Function.nodes : Function → List Node
  | .mk params body => Pattern.nodesOf params ++ Stmt.nodesOf body

def Source.Declarator.nodes : Declarator → List Node
  | .bare target => target.nodes
  | .init target value => target.nodes ++ value.nodes

def Source.Declarator.nodesOf : List Declarator → List Node
  | [] => []
  | d :: ds => d.nodes ++ Declarator.nodesOf ds

def Source.Stmt.nodes : Stmt → List Node
  | .plain parts => Expr.nodesOf parts
  | .vars _ decls => Declarator.nodesOf decls
  | .function name decorators fn => .name name :: (Expr.nodesOf decorators ++ fn.nodes)
  | .classDecl name members => .name name :: Member.nodesOf members
  | .entity name parts body => name.toList.map .name ++ (Expr.nodesOf parts ++ Stmt.nodesOf body)
  | .scoped head body => Stmt.nodesOf head ++ Stmt.nodesOf body
  | .control parts body => Expr.nodesOf parts ++ Stmt.nodesOf body
  | .handler param body => Pattern.nodesOf param ++ Stmt.nodesOf body
  | .imports _ _ names => names.map (.name ·.ident)
  -- a function or class that is exported by default brings its name along
  | .exportDefault name value => (if name = value.ownName then [] else name.toList.map .name) ++ value.nodes

def Source.Stmt.nodesOf : List Stmt → List Node
  | [] => []
  | s :: ss => s.nodes ++ Stmt.nodesOf ss

end

namespace Source

@[simp] theorem Expr.nodesOf_eq (es : List Expr) : Expr.nodesOf es = es.flatMap Expr.nodes := by
  induction es with
  | nil => rfl
  | cons e es ih => rw [Expr.nodesOf, ih, List.flatMap_cons]

@[simp] theorem Member.nodesOf_eq (ms : List Member) : Member.nodesOf ms = ms.flatMap Member.nodes := by
  induction ms with
  | nil => rfl
  | cons m ms ih => rw [Member.nodesOf, ih, List.flatMap_cons]

@[simp] theorem Pattern.nodesOf_eq (ps : List Pattern) : Pattern.nodesOf ps = ps.flatMap Pattern.nodes := by
  induction ps with
  | nil => rfl
  | cons p ps ih => rw [Pattern.nodesOf, ih, List.flatMap_cons]

@[simp] theorem Declarator.nodesOf_eq (ds : List Declarator) : Declarator.nodesOf ds = ds.flatMap Declarator.nodes := by
  induction ds with
  | nil => rfl
  | cons d ds ih => rw [Declarator.nodesOf, ih, List.flatMap_cons]

@[simp] theorem Stmt.nodesOf_eq (ss : List Stmt) : Stmt.nodesOf ss = ss.flatMap Stmt.nodes := by
  induction ss with
  | nil => rfl
  | cons s ss ih => rw [Stmt.nodesOf, ih, List.flatMap_cons]

attribute [simp] Expr.nodes Member.nodes Pattern.nodes Function.nodes Declarator.nodes Stmt.nodes

end Source

mutual

/-- **The walk comes across nodes of the tree only**, each once and in order. -/
theorem sublist_visits (scopes : List Scope) : ∀ e : Expr, (nodesOf (e.visits scopes)).Sublist e.nodes
  | .ident _ => .refl _
  | .string _ _ => .refl _
  | .paren _ inner => sublist_visits scopes inner
  | .member _ object _ => sublist_visits scopes object
  | .call span callee args => by
    simp only [Expr.visits, nodesOf_call, nodesOf_append, Expr.nodes]
    exact ((sublist_visits scopes callee).append (sublist_visitsOf scopes args)).cons_cons _
  | .array _ elements => sublist_visitsOf scopes elements
  | .object _ members => sublist_memberVisitsOf scopes members
  | .function _ name decorators fn => by
    simp only [Expr.visits, nodesOf_scope, nodesOf_append, Expr.nodes]
    exact ((sublist_visitsOf _ decorators).append (sublist_functionVisits _ fn)).trans (List.sublist_append_right ..)
  | .arrow _ fn => sublist_functionVisits scopes fn
  | .classExpr _ name members => by
    simp only [Expr.visits, nodesOf_scope, Expr.nodes]
    exact (sublist_memberVisitsOf _ members).trans (List.sublist_append_right ..)
  | .assign _ target value => by
    simp only [Expr.visits, nodesOf_append, Expr.nodes]
    exact (sublist_patternVisits scopes target).append (sublist_visits scopes value)
  | .spread _ inner => sublist_visits scopes inner
  | .hole _ => .refl _
  | .slot _ parts | .compound _ parts => sublist_visitsOf scopes parts

theorem sublist_visitsOf (scopes : List Scope) :
    ∀ es : List Expr, (nodesOf (Expr.visitsOf scopes es)).Sublist (Expr.nodesOf es)
  | [] => .refl _
  | e :: es => by
    simp only [Expr.visitsOf, nodesOf_append, Expr.nodesOf]
    exact (sublist_visits scopes e).append (sublist_visitsOf scopes es)

theorem sublist_memberVisits (scopes : List Scope) : ∀ m : Member, (nodesOf (m.visits scopes)).Sublist m.nodes
  | .keyed _ computed value => by
    simp only [Member.visits, nodesOf_append, Member.nodes]
    exact (sublist_visitsOf scopes computed).append (sublist_visits scopes value)
  | .method parts fn => by
    simp only [Member.visits, nodesOf_append, Member.nodes]
    exact (sublist_visitsOf scopes parts).append (sublist_functionVisits scopes fn)
  | .parts parts => sublist_visitsOf scopes parts
  | .index key => sublist_patternVisits scopes key
  | .block body => by
    simp only [Member.visits, nodesOf_scope, Member.nodes]
    exact sublist_stmtVisitsOf _ body

theorem sublist_memberVisitsOf (scopes : List Scope) :
    ∀ ms : List Member, (nodesOf (Member.visitsOf scopes ms)).Sublist (Member.nodesOf ms)
  | [] => .refl _
  | m :: ms => by
    simp only [Member.visitsOf, nodesOf_append, Member.nodesOf]
    exact (sublist_memberVisits scopes m).append (sublist_memberVisitsOf scopes ms)

theorem sublist_patternVisits (scopes : List Scope) : ∀ p : Pattern, (nodesOf (p.visits scopes)).Sublist p.nodes
  | .ident _ => .refl _
  | .expr e => sublist_visits scopes e
  | .group parts => sublist_patternVisitsOf scopes parts

theorem sublist_patternVisitsOf (scopes : List Scope) :
    ∀ ps : List Pattern, (nodesOf (Pattern.visitsOf scopes ps)).Sublist (Pattern.nodesOf ps)
  | [] => .refl _
  | p :: ps => by
    simp only [Pattern.visitsOf, nodesOf_append, Pattern.nodesOf]
    exact (sublist_patternVisits scopes p).append (sublist_patternVisitsOf scopes ps)

theorem sublist_functionVisits (scopes : List Scope) : ∀ f : Function, (nodesOf (f.visits scopes)).Sublist f.nodes
  | .mk params body => by
    simp only [Function.visits, nodesOf_scope, nodesOf_append, Function.nodes]
    exact (sublist_patternVisitsOf _ params).append (sublist_stmtVisitsOf _ body)

theorem sublist_declaratorVisits (scopes : List Scope) : ∀ d : Declarator, (nodesOf (d.visits scopes)).Sublist d.nodes
  | .bare target => sublist_patternVisits scopes target
  | .init target value => by
    simp only [Declarator.visits, nodesOf_declarator, nodesOf_append, Declarator.nodes]
    exact (sublist_patternVisits scopes target).append (sublist_visits scopes value)

theorem sublist_declaratorVisitsOf (scopes : List Scope) :
    ∀ ds : List Declarator, (nodesOf (Declarator.visitsOf scopes ds)).Sublist (Declarator.nodesOf ds)
  | [] => .refl _
  | d :: ds => by
    simp only [Declarator.visitsOf, nodesOf_append, Declarator.nodesOf]
    exact (sublist_declaratorVisits scopes d).append (sublist_declaratorVisitsOf scopes ds)

theorem sublist_stmtVisits (scopes : List Scope) : ∀ s : Stmt, (nodesOf (s.visits scopes)).Sublist s.nodes
  | .plain parts => sublist_visitsOf scopes parts
  | .vars _ decls => sublist_declaratorVisitsOf scopes decls
  | .function _ decorators fn => by
    simp only [Stmt.visits, nodesOf_append, Stmt.nodes]
    exact ((sublist_visitsOf scopes decorators).append (sublist_functionVisits scopes fn)).cons _
  | .classDecl _ members => (sublist_memberVisitsOf scopes members).cons _
  | .entity name parts body => by
    simp only [Stmt.visits, nodesOf_append, nodesOf_names, Stmt.nodes, List.append_assoc]
    exact (List.Sublist.refl _).append ((sublist_visitsOf scopes parts).append (sublist_stmtVisitsOf scopes body))
  | .scoped head body => by
    simp only [Stmt.visits, nodesOf_scope, nodesOf_append, Stmt.nodes]
    exact (sublist_stmtVisitsOf _ head).append (sublist_stmtVisitsOf _ body)
  | .control parts body => by
    simp only [Stmt.visits, nodesOf_append, Stmt.nodes]
    exact (sublist_visitsOf scopes parts).append (sublist_stmtVisitsOf scopes body)
  | .handler param body => by
    simp only [Stmt.visits, nodesOf_scope, nodesOf_append, Stmt.nodes]
    exact (sublist_patternVisitsOf _ param).append (sublist_stmtVisitsOf _ body)
  | .imports _ _ _ => List.nil_sublist _
  | .exportDefault _ value => by
    simp only [Stmt.visits, Stmt.nodes]
    exact (sublist_visits scopes value).trans (List.sublist_append_right ..)

theorem sublist_stmtVisitsOf (scopes : List Scope) :
    ∀ ss : List Stmt, (nodesOf (Stmt.visitsOf scopes ss)).Sublist (Stmt.nodesOf ss)
  | [] => .refl _
  | s :: ss => by
    simp only [Stmt.visitsOf, nodesOf_append, Stmt.nodesOf]
    exact (sublist_stmtVisits scopes s).append (sublist_stmtVisitsOf scopes ss)

end

namespace Source

def Program.nodes (p : Program) : List Node := Stmt.nodesOf p.body

/-- **The nodes that the walk through a script comes across.** -/
def Program.visited (p : Program) : List Node := nodesOf p.visits

theorem Program.visited_sublist (p : Program) : p.visited.Sublist p.nodes := sublist_stmtVisitsOf _ p.body

/-! ## Targets of assignment -/

@[simp] theorem flatMap_nodes_expr (es : List Expr) :
    (es.map Pattern.expr).flatMap Pattern.nodes = es.flatMap Expr.nodes := by
  rw [List.flatMap_map]
  rfl

mutual

/-- **An expression that is assigned to keeps its nodes**, or loses some. -/
theorem Expr.nodes_toPattern : ∀ e : Expr, e.toPattern.nodes.Sublist e.nodes
  | .ident _ => .refl _
  | .array _ elements => by
    simpa [Expr.toPattern] using Expr.nodes_toPatterns elements
  | .object _ members => by
    simpa [Expr.toPattern] using Member.nodes_toPatterns members
  | .assign _ target value => by simp [Expr.toPattern]
  | .spread _ inner => Expr.nodes_toPattern inner
  | .string _ _ | .paren _ _ | .member _ _ _ | .call _ _ _ | .function _ _ _ _ | .arrow _ _ | .classExpr _ _ _
  | .hole _ | .slot _ _ | .compound _ _ => .refl _

theorem Expr.nodes_toPatterns : ∀ es : List Expr,
    ((Expr.toPatterns es).flatMap Pattern.nodes).Sublist (es.flatMap Expr.nodes)
  | [] => .refl _
  | e :: es => by
    simp only [Expr.toPatterns, List.flatMap_cons]
    exact (Expr.nodes_toPattern e).append (Expr.nodes_toPatterns es)

theorem Member.nodes_toPattern : ∀ m : Member, m.toPattern.nodes.Sublist m.nodes
  | .keyed _ computed value => by
    simp only [Member.toPattern, Pattern.nodes, Pattern.nodesOf_eq, Member.nodes, Expr.nodesOf_eq, List.flatMap_append,
      flatMap_nodes_expr, List.flatMap_cons, List.flatMap_nil, List.append_nil]
    exact (List.Sublist.refl _).append (Expr.nodes_toPattern value)
  | .parts parts => by
    simpa [Member.toPattern] using Expr.nodes_toPatterns parts
  | .method _ _ | .index _ | .block _ => by simp [Member.toPattern]

theorem Member.nodes_toPatterns : ∀ ms : List Member,
    ((Member.toPatterns ms).flatMap Pattern.nodes).Sublist (ms.flatMap Member.nodes)
  | [] => .refl _
  | m :: ms => by
    simp only [Member.toPatterns, List.flatMap_cons]
    exact (Member.nodes_toPattern m).append (Member.nodes_toPatterns ms)

end

end Source

attribute [simp] List.Subperm.refl List.subperm_cons List.subperm_append_left List.subperm_append_right

@[simp] theorem subperm_append_self {α : Type} (as bs : List α) : as.Subperm (as ++ bs) :=
  (List.sublist_append_left as bs).subperm

@[simp] theorem subperm_self_append {α : Type} (as bs : List α) : bs.Subperm (as ++ bs) :=
  (List.sublist_append_right as bs).subperm

/-! ## Where nodes stand -/

/-- **Where a node stands.** -/
def Node.span : Node → Span
  | .name id => id.span
  | .call span _ _ => span

/-- **A node inside the callee or an argument of a call.** -/
def Node.Inside (n : Node) : Node → Prop
  | .name _ => False
  | .call _ callee args => n ∈ callee.nodes ∨ ∃ e ∈ args, n ∈ e.nodes

/-- **Two nodes that do not cross**: one ends before the other begins, or one is inside the other. -/
def Node.Apart (a b : Node) : Prop :=
  a.span.hi ≤ b.span.lo ∨ b.span.hi ≤ a.span.lo ∨ a.Inside b ∨ b.Inside a

theorem Node.Apart.symm {a b : Node} : a.Apart b → b.Apart a
  | .inl h => .inr (.inl h)
  | .inr (.inl h) => .inl h
  | .inr (.inr (.inl h)) => .inr (.inr (.inr h))
  | .inr (.inr (.inr h)) => .inr (.inr (.inl h))

namespace Source

/-- **A literal between its quotes**, with the value of its text. -/
def Quoted (whole : List Char) (span : Span) (value : Cooked) : Prop :=
  ∃ front quote raw back, (quote = '"' ∨ quote = '\'') ∧ whole = front ++ quote :: (raw ++ quote :: back) ∧
    span = ⟨byteLength front, byteLength front + byteLength raw + 2⟩ ∧ value = Cooked.ofRaw raw

/-- **A stretch of text from one character to another**, both included. -/
def Bracketed (whole : List Char) (span : Span) (first last : Char) : Prop :=
  (∃ front back, whole = front ++ first :: back ∧ span.lo = byteLength front) ∧
    ∃ front back, whole = front ++ last :: back ∧ span.hi = byteLength (front ++ [last])

/-- **The value of a member starts between two characters.** -/
def Member.Starts (whole : List Char) : Member → Prop
  | .keyed _ _ value => Boundary whole value.span.lo
  | _ => True

/-- **What stands at the ends of a string and of an object**, and where the values of an object start. -/
def Expr.Enclosed (whole : List Char) : Expr → Prop
  | .string span value => ∃ cooked, Quoted whole span cooked ∧ ∀ v, value = some v ↔ cooked = .text v
  | .object span members => Bracketed whole span '{' '}' ∧ ∀ m ∈ members, m.Starts whole
  | _ => True

/-- **An expression around its nodes.** -/
structure Expr.Set (whole : List Char) (e : Expr) : Prop where
  starts : Boundary whole e.span.lo
  lo_le_hi : e.span.lo ≤ e.span.hi
  within : ∀ n ∈ e.nodes, e.span.lo ≤ n.span.lo ∧ n.span.hi ≤ e.span.hi
  enclosed : e.Enclosed whole

/-- **What may stand between a callee and its arguments**: blank space and comments, perhaps around types between angle
brackets. -/
inductive Lead : List Char → Prop
  | plain {gap : List Char} : Trivia gap → Lead gap
  | typed {gap types gap' : List Char} : Trivia gap → Trivia gap' → Lead (gap ++ '<' :: (types ++ '>' :: gap'))

/-- **Parentheses without arguments** behind `lo`, of which the second one ends at `hi`. -/
def Unfilled (whole : List Char) (lo hi : Nat) : Prop :=
  ∃ front before between back, whole = front ++ (before ++ '(' :: (between ++ ')' :: back)) ∧ byteLength front = lo ∧
    hi = lo + byteLength before + byteLength between + 2 ∧ Lead before ∧ Trivia between

/-- **Parentheses, a member or a call.** -/
def Expr.stepped : Expr → Bool
  | .paren _ _ | .member _ _ _ | .call _ _ _ => true
  | _ => false

/-- **Arguments in a row** from `lo` on, apart from each other and from what closes them. -/
structure Row (whole : List Char) (lo hi : Nat) (args : List Expr) : Prop where
  within : ∀ e ∈ args, lo ≤ e.span.lo ∧ e.span.hi < hi
  set : ∀ e ∈ args, e.Set whole
  apart : args.Pairwise fun a b => a.span.hi < b.span.lo

end Source

/-- **A node in good form**: a name has characters, a call its arguments in a row behind its callee. -/
def Node.Formed (whole : List Char) : Node → Prop
  | .name id => id.span.lo < id.span.hi
  | .call span callee args =>
    span.lo ≤ callee.span.lo ∧ callee.span.hi ≤ span.hi ∧ callee.Set whole ∧ Row whole callee.span.hi span.hi args

/-- **A call without arguments ends with its parentheses.** -/
def Node.Closed (whole : List Char) : Node → Prop
  | .call span callee [] => callee.stepped = true → Unfilled whole callee.span.hi span.hi
  | _ => True

/-- **Nodes in good order** between two offsets. -/
structure Laid (whole : List Char) (lo hi : Nat) (ns : List Node) : Prop where
  within : ∀ n ∈ ns, lo ≤ n.span.lo ∧ n.span.hi ≤ hi
  starts : ∀ n ∈ ns, Boundary whole n.span.lo
  formed : ∀ n ∈ ns, n.Formed whole
  closed : ∀ n ∈ ns, n.Closed whole
  apart : ns.Pairwise Node.Apart

namespace Laid

variable {whole : List Char} {lo mid hi : Nat} {ns ms : List Node}

theorem nil : Laid whole lo hi [] := ⟨by simp, by simp, by simp, by simp, .nil⟩

theorem mono (h : Laid whole lo hi ns) {lo' hi' : Nat} (hlo : lo' ≤ lo) (hhi : hi ≤ hi') : Laid whole lo' hi' ns :=
  ⟨fun n hn => ⟨Nat.le_trans hlo (h.within n hn).1, Nat.le_trans (h.within n hn).2 hhi⟩, h.starts, h.formed, h.closed,
    h.apart⟩

theorem subperm (h : Laid whole lo hi ns) (hsub : ms.Subperm ns) : Laid whole lo hi ms := by
  refine ⟨fun n hn => h.within n (hsub.subset hn), fun n hn => h.starts n (hsub.subset hn),
    fun n hn => h.formed n (hsub.subset hn), fun n hn => h.closed n (hsub.subset hn), ?_⟩
  obtain ⟨l, hperm, hl⟩ := hsub
  exact (hperm.pairwise_iff fun h => h.symm).1 (h.apart.sublist hl)

/-- **What lies before one offset and what lies behind another.** -/
theorem append {mid' : Nat} (h : Laid whole lo mid ns) (h' : Laid whole mid' hi ms) (hmid : mid ≤ mid') (hlo : lo ≤ mid')
    (hhi : mid ≤ hi) : Laid whole lo hi (ns ++ ms) := by
  have hn := h.mono (Nat.le_refl lo) hhi
  have hm := h'.mono hlo (Nat.le_refl hi)
  refine ⟨List.forall_mem_append.2 ⟨hn.within, hm.within⟩, List.forall_mem_append.2 ⟨h.starts, h'.starts⟩,
    List.forall_mem_append.2 ⟨h.formed, h'.formed⟩, List.forall_mem_append.2 ⟨h.closed, h'.closed⟩,
    List.pairwise_append.2 ⟨h.apart, h'.apart, fun a ha b hb => .inl ?_⟩⟩
  exact Nat.le_trans (Nat.le_trans (h.within a ha).2 hmid) (h'.within b hb).1

theorem name (id : Ident) (hlo : Boundary whole id.span.lo) (hlt : id.span.lo < id.span.hi) :
    Laid whole id.span.lo id.span.hi [.name id] where
  within := List.forall_mem_singleton.2 ⟨Nat.le_refl _, Nat.le_refl _⟩
  starts := List.forall_mem_singleton.2 hlo
  formed := List.forall_mem_singleton.2 hlt
  closed := List.forall_mem_singleton.2 trivial
  apart := List.pairwise_singleton _ _

/-- **A call around its parts.** -/
theorem call {callee : Expr} {args : List Expr} (h : Laid whole lo hi (callee.nodes ++ args.flatMap Expr.nodes))
    (hlo : Boundary whole lo) (hform : (Node.call ⟨lo, hi⟩ callee args).Formed whole)
    (hclosed : (Node.call ⟨lo, hi⟩ callee args).Closed whole) :
    Laid whole lo hi (Expr.call ⟨lo, hi⟩ callee args).nodes := by
  rw [Expr.nodes, Expr.nodesOf_eq]
  refine ⟨List.forall_mem_cons.2 ⟨⟨Nat.le_refl lo, Nat.le_refl hi⟩, h.within⟩, List.forall_mem_cons.2 ⟨hlo, h.starts⟩,
    List.forall_mem_cons.2 ⟨hform, h.formed⟩, List.forall_mem_cons.2 ⟨hclosed, h.closed⟩,
    List.pairwise_cons.2 ⟨fun n hn => .inr (.inr (.inr ?_)), h.apart⟩⟩
  rcases List.mem_append.1 hn with hn | hn
  · exact .inl hn
  · exact .inr (List.mem_flatMap.1 hn)

end Laid

end Localizer
