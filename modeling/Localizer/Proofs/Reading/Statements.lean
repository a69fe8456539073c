import Localizer.Source.Program
import Localizer.Proofs.Reading.Expressions
/-!
# Statements — what is read inside statements and scripts

The parts of a statement are kept, perhaps in another order than they were read in: the tests of a `switch` before the
statements of its branches, the test of a `do` loop before its body.
-/
namespace Localizer
namespace Source

open Reader Grammar

variable {r : Rules} {ctx : Context}

/-! ## Variables -/

theorem reads_declarator (h : r.Sound) : Reads (declarator r ctx) := by
  refine .intro fun F n => .read (reads_target h) fun p => .ifThenDrop fun _ => .skip fun _ => .skip fun value => ?_
  split
  · exact .read (h.expr _).reads fun e => .done (by simp)
  · exact .done (by simp)

theorem reads_declarators (h : r.Sound) : Reads (declarators r ctx) :=
  .intro fun _ _ => .read (reads_declarator h) fun first => .read (.joined "," (reads_declarator h)) fun more =>
    .done (by simp)

/-! ## Control -/

theorem reads_inParentheses (h : r.Sound) : Reads (inParentheses r ctx) :=
  .intro fun _ _ => .skip fun _ => .read (readsExpr_nestedSequence h).reads fun _ => .skip fun _ => .done (.refl _)

theorem reads_expressionStatement (h : r.Sound) : Reads (expressionStatement r ctx) :=
  .intro fun _ _ => .read (readsExpr_sequence h).reads fun e => .skip fun _ => .done (by simp)

theorem reads_inner (h : r.Sound) : Reads (inner r ctx) := by
  refine .intro fun F n => .skip fun k => ?_
  split
  · exact .last (reads_expressionStatement h)
  · refine .skip fun next => ?_
    split
    · exact .last (h.stmt ctx)
    · exact .fail
  · exact .last (h.stmt ctx)

theorem reads_ifStatement (h : r.Sound) : Reads (ifStatement r ctx) := by
  refine .intro fun F n => .skip fun _ => .read (reads_inParentheses h) fun test => .read (reads_inner h) fun yes => ?_
  refine .skip fun otherwise => ?_
  split
  · exact .read (reads_inner h) fun no => .done (by simp)
  · exact .done (by simp)

theorem reads_loopTests (h : r.Sound) : Reads (loopTests r ctx) := by
  have part : ∀ m, Reads (do
      if ← isMark m then return [] else return [← nestedSequence r ctx]) := by
    refine fun m => .intro fun F n => .skip fun missing => ?_
    split
    · exact .done (.refl _)
    · exact .read (readsExpr_nestedSequence h).reads fun e => .done (by simp)
  exact .intro fun _ _ => .skip fun _ => .read (part ";") fun test => .skip fun _ => .read (part ")") fun step =>
    .done (by simp)

theorem reads_loopRange (h : r.Sound) : Reads (loopRange r ctx) := by
  refine .intro fun F n => .skip fun items => ?_
  split
  · exact .last (h.expr ctx).reads
  · exact .skip fun _ => .last (readsExpr_nestedSequence h).reads

theorem reads_loopHead (h : r.Sound) : Reads (loopHead r ctx) := by
  refine .intro fun F n => .skip fun bare => ?_
  split
  · exact .read (reads_loopTests h) fun tests => .done (by simp)
  refine .skip fun found => ?_
  split
  · refine .read (reads_declarators h) fun decls => .skip fun items => .skip fun names => ?_
    split
    · exact .read (reads_loopRange h) fun range => .done (by simp)
    · exact .ifNot fun _ => .read (reads_loopTests h) fun tests => .done (by simp)
  refine .skip fun lo => .read (readsExpr_nestedSequence h).reads fun e => .skip fun items => .skip fun names => ?_
  split
  · refine .read (reads_loopRange h) fun range => .skip fun span => .done ?_
    simpa using (Expr.nodes_toPattern e).subperm
  · exact .read (reads_loopTests h) fun tests => .done (by simp)

theorem reads_forStatement (h : r.Sound) : Reads (forStatement r ctx) :=
  .intro fun _ _ => .skip fun _ => .skip fun _ => .skip fun _ => .read (reads_loopHead h) fun head => .skip fun _ =>
    .read (reads_inner h) fun body => .done (by simp)

theorem reads_switchStatement (h : r.Sound) : Reads (switchStatement r ctx) := by
  refine .intro fun F n => .skip fun _ => .read (reads_inParentheses h) fun value => .skip fun _ => ?_
  refine .read (.allUntil _ (.intro fun F n => .read (.intro fun F n => ?_) fun test => .skip fun _ =>
    .read (.collect (.intro fun F n => ?_)) fun body => .done (by simp))) fun branches => .ifThen fun _ => .done ?_
  · refine .skip fun otherwise => ?_
    split
    · exact .done (.refl _)
    · exact .skip fun _ => .read (readsExpr_nestedSequence h).reads fun e => .done (by simp)
  · refine .skip fun next => .skip fun otherwise => .skip fun closed => ?_
    split
    · exact .done (.refl _)
    · exact .read (h.stmt ctx) fun s => .done (by simp)
  · simp [List.flatMap_assoc]
    exact (List.flatMap_append_perm branches _ _).subperm

theorem reads_tryStatement (h : r.Sound) : Reads (tryStatement r ctx) := by
  refine .intro fun F n => .skip fun _ => .read (reads_braced h) fun body => .read (.intro fun F n => ?_) fun handlers => ?_
  · refine .skip fun caught => ?_
    split
    · refine .read (.intro fun F n => .skip fun named => ?_) fun param => .read (reads_braced h) fun body => .done (by simp)
      split
      · exact .read (h.target ctx) fun p => .skip fun _ => .skip fun _ => .done (by simp)
      · exact .done (.refl _)
    · exact .done (.refl _)
  refine .read (.intro fun F n => .skip fun last => ?_) fun last => .ifThen fun _ => .done (by simp)
  split
  · exact .read (reads_braced h) fun body => .done (by simp)
  · exact .done (.refl _)

theorem reads_keywordStatement (h : r.Sound) : Reads (keywordStatement r ctx) := by
  refine .intro fun F n => .skip fun _ => .skip fun bare => ?_
  split
  · exact .skip fun _ => .done (by simp)
  · exact .read (readsExpr_nestedSequence h).reads fun e => .skip fun _ => .done (by simp)

theorem reads_jumpStatement : Reads jumpStatement := by
  refine .intro fun F n => .skip fun _ => .skip fun bare => ?_
  split
  · exact .skip fun _ => .done (by simp)
  · exact .skip fun _ => .skip fun _ => .done (by simp)

theorem reads_doStatement (h : r.Sound) : Reads (doStatement r ctx) := by
  refine .intro fun _ _ => .skip fun _ => .read (reads_inner h) fun body => .skip fun _ => ?_
  refine .read (reads_inParentheses h) fun test => .skip fun _ => .done ?_
  simpa using List.perm_append_comm.subperm

/-! ## Declarations -/

theorem reads_interfaceDeclaration : Reads (interfaceDeclaration r ctx) := by
  refine .intro fun F n => .skip fun _ => .skip fun _ => .skip fun _ => .skip fun based => ?_
  split
  · exact .skip fun _ => .skip fun _ => .done (by simp)
  · exact .skip fun _ => .done (by simp)

theorem reads_aliasDeclaration : Reads (aliasDeclaration r ctx) :=
  .intro fun _ _ => .skip fun _ => .skip fun _ => .skip fun _ => .skip fun _ => .skip fun _ => .skip fun _ =>
    .done (by simp)

theorem reads_enumDeclaration (h : r.Sound) : Reads (enumDeclaration r ctx) := by
  refine .intro fun F n => .skip fun _ => .read (reads_ident ctx) fun name => .skip fun _ => ?_
  refine .read (.listUntil _ (.intro fun F n => .read (reads_propertyKey h) fun key =>
    .read (.optional _ (h.expr _).reads) fun value => .done ?_)) fun members => .done ?_
  · cases hid : key.ident <;> simp [hid]
  · have hmembers : members.flatten.flatMap Expr.nodes = members.flatMap nodes := nodes_flatten members
    simp [hmembers]

theorem reads_namespaceBody (h : r.Sound) : Reads (namespaceBody r ctx) :=
  .intro fun _ _ => .skip fun _ => .read (reads_braced h) fun _ => .skip fun _ => .done (.refl _)

theorem reads_namespaceDeclaration (h : r.Sound) : Reads (namespaceDeclaration r ctx) := by
  refine .intro fun F n => .skip fun _ => .skip fun k => ?_
  split
  · refine .skip fun _ => .skip fun brace => ?_
    split
    · exact .read (reads_namespaceBody h) fun body => .done (by simp)
    · exact .skip fun _ => .done (by simp)
  · refine .read (reads_ident ctx) fun name => .read (.collect (.intro fun F n => .skip fun dot => ?_)) fun more =>
      .read (reads_namespaceBody h) fun body => .done (by simp)
    split
    · exact .read reads_anyWord fun id => .done (by simp)
    · exact .done (.refl _)

theorem reads_globalDeclaration (h : r.Sound) : Reads (globalDeclaration r ctx) :=
  .intro fun _ _ => .read reads_anyWord fun name => .read (reads_namespaceBody h) fun body => .done (by simp)

/-! What a declaration reads, behind decorators that it may keep. -/

section Marks

variable {marks : List Expr} {F : Frame} {n : Nat}

theorem ensures_classDeclaration (h : r.Sound) :
    Ensures (At F n (nodes marks)) (classDeclaration r ctx marks) (Behind F) := by
  refine .bind (ensures_classFrom h (readsExpr_operand h).reads marks F n []) fun ⟨name, members⟩ => ?_
  cases name with
  | some id => exact .done (by simp)
  | none => exact .fail

theorem ensures_functionDeclaration (h : r.Sound) (isAsync : Bool) :
    Ensures (At F n (nodes marks)) (functionDeclaration r ctx isAsync marks) (Behind F) := by
  refine .bind (ensures_functionDeclared h isAsync F n _) fun ⟨name, fn⟩ => ?_
  cases name with
  | some id => exact .done (by simpa using List.perm_middle.symm.subperm)
  | none => exact .fail

theorem ensures_plainDeclaration (h : r.Sound) :
    Ensures (At F n (nodes marks)) (plainDeclaration r ctx marks) (Behind F) := by
  refine .skip fun found => ?_
  split
  · exact .read (reads_declarators h) fun decls => .ifNot fun _ => .skip fun _ => .done (by simp)
  refine .skip fun k => ?_
  split
  · exact .found (ensures_functionDeclaration h false)
  · exact .found (ensures_classDeclaration h)
  · refine .skip fun next => ?_
    split
    · exact .skip fun _ => .found (ensures_functionDeclaration h true)
    · exact .nothing
  · exact .nothing

theorem ensures_typedDeclaration (h : r.Sound) {plain : Context → Reader (Option Stmt)}
    (hplain : ∀ ctx, Ensures (At F n (nodes marks)) (plain ctx) (Behind F)) (depth : Nat) :
    Ensures (At F n (nodes marks)) (typedDeclaration r marks plain depth ctx) (Behind F) := by
  induction depth generalizing ctx with
  | zero => exact .fail
  | succ depth ih =>
    have named : ∀ {p : Reader Stmt}, Reads p →
        Ensures (At F n (nodes marks)) (do if ← nameFollows then return some (← p) else return none) (Behind F) := by
      refine fun hp => .skip fun follows => ?_
      split
      · exact .found (.last hp)
      · exact .nothing
    unfold typedDeclaration
    split
    · exact .nothing
    refine .skip fun k => ?_
    split
    · exact .found (.last (reads_enumDeclaration h))
    · refine .skip fun next => ?_
      split
      · exact .skip fun _ => .found (.last (reads_enumDeclaration h))
      · exact .nothing
    · exact named reads_interfaceDeclaration
    · exact named reads_aliasDeclaration
    · exact named (reads_namespaceDeclaration h)
    · refine .skip fun next => ?_
      split
      · split
        · exact .nothing
        · exact .found (.last (reads_namespaceDeclaration h))
      · exact named (reads_namespaceDeclaration h)
    · refine .skip fun next => ?_
      split
      · exact .found (.last (reads_globalDeclaration h))
      · exact .nothing
    · refine .skip fun next => ?_
      split
      · exact .skip fun _ => .found (ensures_classDeclaration h)
      · exact .nothing
    · refine .skip fun next => ?_
      split
      · exact .nothing
      exact .lastPerhaps (.skip fun _ => .perhaps ih (fun _ => .kept)
        (.perhaps (hplain _) (fun _ => .kept) .fail))
    · exact .nothing

theorem ensures_declaration (h : r.Sound) (marks : List Expr) :
    Ensures (At F n (nodes marks)) (declaration r ctx marks) (Behind F) :=
  .skip fun s => .perhaps (ensures_typedDeclaration h (fun _ => ensures_plainDeclaration h) s.turns)
    (fun _ => .pure fun _ => behind_some.2) (ensures_plainDeclaration h)

end Marks

/-! ## Imports and exports -/

theorem reads_exportedName : Reads exportedName := by
  refine .intro fun F n => .skip fun k => ?_
  split
  · exact .skip fun _ => .done (by simp)
  · exact .read reads_anyWord fun id => .done (by simp)

theorem reads_importedName : Reads (importedName ctx) := by
  refine .intro fun F n => .skip fun _ => .read reads_exportedName fun first => .skip fun renamed => ?_
  split
  · exact .read (reads_ident ctx) fun id => .done (by simp)
  cases first with
  | none => exact .fail
  | some id =>
    dsimp only
    split
    · exact .done (by simp)
    · exact .fail

theorem reads_importedNames : Reads (importedNames ctx) := by
  refine .intro fun F n => .skip fun star => ?_
  split
  · exact .skip fun _ => .read (reads_ident ctx) fun id => .done (by simp)
  · exact .skip fun _ => .last (.listUntil _ reads_importedName)

theorem reads_importStatement : Reads (importStatement r ctx) := by
  refine .intro fun F n => .skip fun _ => .skip fun _ => .skip fun k => ?_
  split
  · exact .skip fun source => .done (by simp)
  refine .skip fun typesOnly => .ifThen fun _ => .skip fun phased => .ifThen fun _ => .skip fun braces => .skip fun star => ?_
  split
  · exact .read reads_importedNames fun names => .skip fun _ => .skip fun source => .done (by simp)
  refine .read (reads_ident ctx) fun first => .skip fun equals => ?_
  split
  · exact .skip fun _ => .skip fun source => .done (by simp)
  refine .read (.intro fun F n => .skip fun comma => ?_) fun more => .skip fun _ => .skip fun source => .done (by simp)
  split
  · exact .last reads_importedNames
  · exact .done (.refl _)

theorem reads_exportList : Reads (exportList r ctx) := by
  refine .intro fun F n => .skip fun _ => .read (.listUntil _ (.intro fun F n => .skip fun _ =>
    .read reads_exportedName fun first => .read (.intro fun F n => .skip fun renamed => ?_) fun second => .done ?_))
    fun names => .skip fun outside => ?_
  · split
    · exact .last reads_exportedName
    · exact .done (.refl _)
  · cases first <;> cases second <;> simp
  · have hnames : (names.flatten.map Expr.ident).flatMap Expr.nodes = names.flatMap nodes :=
      (List.flatMap_map ..).trans (nodes_flatten names)
    split
    · exact .skip fun _ => .done (by simp)
    · exact .skip fun _ => .done (by simp [-List.map_flatten, hnames])

theorem reads_exportAll : Reads (exportAll r ctx) := by
  refine .intro fun F n => .skip fun _ => .skip fun named => ?_
  split
  · exact .skip fun _ => .skip fun _ => .skip fun _ => .done (by simp)
  · exact .skip fun _ => .skip fun _ => .done (by simp)

section Marks

variable {marks : List Expr} {F : Frame} {n : Nat}

theorem ensures_exportMarks (h : r.Sound) :
    Ensures (At F n (nodes marks)) (exportMarks r ctx marks) fun kept => At F n (nodes kept) := by
  refine .read (reads_decorators h) fun more => ?_
  split
  · exact .pure fun _ hs => hs.sub (subperm_self_append ..)
  split
  · exact .pure fun _ hs => hs.sub (List.sublist_append_left ..).subperm
  · exact .fail

theorem ensures_exportDefault (h : r.Sound) :
    Ensures (At F n (nodes marks)) (exportDefault r ctx marks) (Behind F) := by
  refine .skip fun lo => .bind (ensures_exportMarks h) fun marks => ?_
  extract_lets value typed
  have hvalue : ∀ u, Ensures (At F n (nodes marks)) (value u) (Behind F) := by
    refine fun _ => .skip fun named => ?_
    split
    · refine .bind (ensures_classFrom h (readsExpr_operand h).reads marks F n []) fun ⟨name, members⟩ => ?_
      exact .skip fun span => .done (by simp [Expr.ownName])
    refine .skip fun isAsync => .ifThen fun _ => .skip fun called => ?_
    split
    · refine .bind (ensures_functionDeclared h isAsync F n _) fun ⟨name, fn⟩ => .skip fun span => .done ?_
      simpa [Expr.ownName] using (List.perm_append_comm_assoc ..).subperm
    · exact .read (h.expr ctx).reads fun e => .skip fun _ => .done (by simp)
  split
  swap
  · exact hvalue ()
  refine .skip fun modifier => ?_
  have htyped : ∀ u, Ensures (At F n (nodes marks)) (typed u) (Behind F) := by
    refine fun _ => .skip fun described => ?_
    split
    · refine .skip fun named => ?_
      split
      · exact .last reads_interfaceDeclaration
      · exact hvalue ()
    · exact hvalue ()
  split
  · exact .skip fun next => .ifThen htyped
  · exact htyped ()

theorem ensures_exportStatement (h : r.Sound) (marks : List Expr) :
    Ensures (At F n (nodes marks)) (exportStatement r ctx marks) (Behind F) := by
  refine .ifNot fun _ => .skip fun _ => .skip fun _ => .skip fun list => ?_
  split
  · exact .last reads_exportList
  refine .skip fun all => ?_
  split
  · exact .last reads_exportAll
  refine .skip fun default => ?_
  split
  · exact ensures_exportDefault h
  extract_lets declared
  have hdeclared : ∀ u, Ensures (At F n (nodes marks)) (declared u) (Behind F) := by
    refine fun _ => .bind (ensures_exportMarks h) fun marks => ?_
    exact .perhaps (ensures_declaration h marks) (fun _ => .kept) .fail
  split
  swap
  · exact hdeclared ()
  refine .skip fun assigned => ?_
  split
  · exact .read (h.expr _).reads fun e => .skip fun _ => .done (by simp)
  refine .skip fun named => ?_
  split
  · exact .skip fun _ => .skip fun _ => .read (reads_ident _) fun id => .skip fun _ => .done (by simp)
  refine .skip fun imported => ?_
  split
  · exact .last reads_importStatement
  refine .skip fun typed => ?_
  split
  · refine .skip fun next => ?_
    split
    · exact .skip fun _ => .last reads_exportList
    · exact .skip fun _ => .last reads_exportAll
    · exact hdeclared ()
  · exact hdeclared ()

end Marks

/-! ## All statements -/

theorem reads_labelled (h : r.Sound) : Reads (labelled r ctx) := by
  refine .intro fun F n => .skip fun name => .skip fun next => ?_
  split
  · exact .skip fun _ => .skip fun _ => .read (reads_inner h) fun body => .done (by simp)
  · exact .done (.refl _)

theorem reads_decorated (h : r.Sound) : Reads (decorated r ctx) := by
  refine .intro fun F n => .read (reads_decorators h) fun marks => .ifThen fun _ => .skip fun exported => ?_
  split
  · exact ensures_exportStatement h marks
  · exact .perhaps (ensures_declaration h marks) (fun _ => .kept) (.last (h.stmt ctx))

theorem reads_stmt (h : r.Sound) : Reads (stmt r ctx) := by
  refine .intro fun F n => .skip fun k => ?_
  split
  · exact .read (reads_braced h) fun body => .done (by simp)
  · exact .skip fun _ => .done (by simp)
  · exact .last (reads_decorated h)
  · split
    · exact .last (reads_ifStatement h)
    · exact .last (reads_forStatement h)
    · exact .skip fun _ => .read (reads_inParentheses h) fun test => .read (reads_inner h) fun body => .done (by simp)
    · exact .skip fun _ => .read (reads_inParentheses h) fun value => .read (reads_inner h) fun body => .done (by simp)
    · exact .last (reads_doStatement h)
    · exact .last (reads_switchStatement h)
    · exact .last (reads_tryStatement h)
    · exact .last (reads_keywordStatement h)
    · exact .skip fun _ => .skip fun _ => .ifThen fun _ => .last (reads_expressionStatement h)
    · exact .last reads_jumpStatement
    · exact .last reads_jumpStatement
    · exact .skip fun _ => .skip fun _ => .done (by simp)
    · refine .skip fun next => ?_
      split
      · exact .last (reads_expressionStatement h)
      · exact .last (reads_expressionStatement h)
      · split
        · exact .last reads_importStatement
        · exact .fail
    · exact ensures_exportStatement h []
    · refine .perhaps (ensures_declaration h []) (fun _ => .kept) ?_
      exact .perhaps (.last (reads_labelled h)) (fun _ => .kept) (.last (reads_expressionStatement h))
  · exact .last (reads_expressionStatement h)

/-! ## Scripts -/

theorem Rules.sound_nothing : Rules.nothing.Sound where
  expr _ := .intro fun _ _ => .fail
  binary _ _ := .intro fun _ _ => .fail
  unary _ := .intro fun _ _ => .fail
  made _ := .intro fun _ _ => .fail
  target _ := .intro fun _ _ => .fail
  stmt _ := .intro fun _ _ => .fail
  element _ := .intro fun _ _ => .fail

theorem Rules.Sound.deeper (h : r.Sound) : r.deeper.Sound where
  expr _ := readsExpr_expr h
  binary _ level := readsExpr_binary h level
  unary _ := readsExpr_unary h
  made _ := readsExpr_made h
  target _ := reads_target h
  stmt _ := reads_stmt h
  element _ := reads_element h

theorem Rules.sound_upTo (depth : Nat) : (Rules.upTo depth).Sound := by
  induction depth with
  | zero => exact sound_nothing
  | succ depth ih => exact ih.deeper

/-- **The nodes of a script are laid out in its text.** -/
theorem Program.laid_of_read {dialect : Dialect} {text : List Char} {p : Program} (h : Program.read dialect text = .ok p) :
    ∃ hi, Laid text 0 hi p.nodes := by
  have hstatements : Reads (Reader.collect do
      if (← Reader.kind) == .done then return none
      return some (← (Rules.upTo (text.length + 2)).stmt (Context.outermost dialect))) := by
    refine .collect (.intro fun F n => .skip fun k => ?_)
    split
    · exact .done (.refl _)
    · exact .read ((Rules.sound_upTo _).stmt _) fun s => .done (by simp)
  unfold Program.read at h
  dsimp only at h
  split at h
  · rename_i body s hread
    cases h
    rw [Program.nodes, Stmt.nodesOf_eq]
    exact ⟨_, (hstatements.laid hread).mono (Nat.zero_le _) (Nat.le_refl _)⟩
  · cases h

end Source

/-- **What comes out well**, with what can be computed about it. -/
theorem exists_of_check {ε α : Type} {outcome : Except ε α} {P : α → Prop} [DecidablePred P]
    (h : (match outcome with
      | .ok a => decide (P a)
      | .error _ => false) = true) : ∃ a, outcome = .ok a ∧ P a := by
  cases outcome with
  | ok a => exact ⟨a, rfl, of_decide_eq_true h⟩
  | error e => cases h

end Localizer
