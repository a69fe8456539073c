import Localizer.Source.Grammar.Expressions
import Localizer.Proofs.Reading.Elements
/-!
# Expressions — every expression stands where it says

Each level of the grammar of expressions is gone through once: literals, arrow functions, operands and the steps after
them, operators, conditions and assignments.  A call is made in one place only, among the steps after an operand
(`ensures_chainStep`): its callee is the operand so far, and its arguments stand in a row behind it.
-/
namespace Localizer
namespace Source

open Reader Grammar

variable {r : Rules} {ctx : Context}

/-! ## Literals -/

theorem takes_templateText (checked : Bool) : Takes (templateText checked) := by
  refine .later fun s => ?_
  split
  · exact .fail
  · dsimp only
    split
    · exact .bind .fail
    · exact .bind (.skipPast _)

theorem readsExpr_regex : ReadsExpr regex := by
  refine .fromHere fun F n => .skip fun s => ?_
  dsimp only
  split
  · exact .fail
  · exact .take (.skip _) fun _ => .span fun _ hs => .of_span hs (Nat.le_refl _) rfl (by simp) trivial

theorem ensures_template (h : r.Sound) (tagged : Bool) (F : Frame) (n : Nat) (ns : List Node) :
    Ensures (At F n ns) (template r ctx tagged) fun parts => At F F.lo (ns ++ parts.flatMap Expr.nodes) := by
  refine .take (takes_templateText _) fun hole => ?_
  refine .bind (R := fun state : Bool × List Expr => At F F.lo (ns ++ state.2.flatMap Expr.nodes)) ?_ fun state => ?_
  · refine Ensures.strengthen (Ensures.fold (I := fun state => At F F.lo (ns ++ state.2.flatMap Expr.nodes))
      (fun state => ?_) _) fun _ hs => by simpa using hs
    split
    · refine .read (readsExpr_nestedSequence h).reads fun e => .skip fun _ => .ifNot fun _ => .skip fun hole => ?_
      exact .pure fun _ hs => by simpa using hs
    · exact .pure fun _ hs => hs
  · exact .pure fun _ hs => hs

theorem reads_listElement (h : r.Sound) : Reads (listElement r ctx) := by
  refine .intro fun F n => .skip fun lo => .skip fun hole => ?_
  split
  · exact .done (by simp)
  refine .skip fun rest => ?_
  split
  · exact .read (h.expr _).reads fun e => .skip fun _ => .done (by simp)
  · exact .last (h.expr _).reads

theorem reads_objectMember (h : r.Sound) : Reads (objectMember r ctx) := by
  refine .intro fun F n => .skip fun rest => ?_
  split
  · exact .read (h.expr _).reads fun e => .done (by simp)
  refine .skip fun prelude => .read (reads_propertyKey h) fun key => .skip fun _ => .skip fun _ => ?_
  split
  · exact .read (reads_declaredFunction h (subperm_kept prelude) _ _) fun fn => .done (by simp)
  refine .ifThen fun _ => .skip fun colon => ?_
  split
  · exact .read (h.expr _).reads fun e => .done (by simp)
  split
  · rename_i id hid
    refine .ifThen fun _ => .skip fun default => ?_
    split
    · exact .read (h.expr _).reads fun e => .skip fun _ => .done (by simp [hid])
    · exact .done (by simp [hid])
  · exact .fail

/-- **The value of a member starts where its first token starts.** -/
theorem starts_objectMember (h : r.Sound) (F : Frame) (n : Nat) :
    Ensures (At F n []) (objectMember r ctx) fun m _ => m.Starts F.whole := by
  refine .skip fun rest => ?_
  split
  · exact .skip fun e => .pure fun _ _ => trivial
  refine .skip fun prelude => .skip fun key => .skip fun _ => .skip fun _ => ?_
  split
  · exact .skip fun fn => .pure fun _ _ => trivial
  refine .ifThen fun _ => .skip fun colon => ?_
  split
  · exact .expr (h.expr _) fun e _ hset => .pure fun _ _ => hset.starts
  split
  · refine .ifThen fun _ => .skip fun default => ?_
    split
    · exact .skip fun e => .skip fun _ => .pure fun _ _ => trivial
    · exact .pure fun _ _ => trivial
  · exact .fail

/-! ## Arrow functions -/

theorem reads_arrowBody (h : r.Sound) (isAsync : Bool) : Reads (arrowBody r ctx isAsync) := by
  refine .intro fun F n => .skip fun brace => ?_
  split
  · exact .last (reads_braced h)
  · exact .read (h.expr _).reads fun e => .done (by simp)

theorem ensures_arrowFrom (h : r.Sound) (isAsync : Bool) (F : Frame) (n : Nat) :
    Ensures (At F n []) (arrowFrom r ctx isAsync F.lo) (Built F) := by
  refine .skip fun _ => .read (reads_arrowParameters h) fun params => .skip fun _ => .skip fun _ => .ifThen fun _ => ?_
  refine .take (.expectMark _) fun _ => .read (reads_arrowBody h isAsync) fun body => ?_
  exact .span fun _ hs => .of_span hs (Nat.le_refl _) rfl (by simp) trivial

theorem ensures_shortArrow (h : r.Sound) (isAsync : Bool) (F : Frame) (n : Nat) :
    Ensures (At F n []) (shortArrow r ctx isAsync F.lo) (Built F) := by
  refine .read (reads_ident ctx) fun param => .skip fun _ => .ifThen fun _ => ?_
  refine .take (.expectMark _) fun _ => .read (reads_arrowBody h isAsync) fun body => ?_
  exact .span fun _ hs => .of_span hs (Nat.le_refl _) rfl (by simp) trivial

theorem readsExpr_parenthesized (h : r.Sound) : ReadsExpr (parenthesized r ctx) := by
  refine .fromHere fun F n => .attempt (R := Built F) (.unlessBetter ?_ ?_) (ensures_arrowFrom h false F n)
    fun e => .pure fun _ hs => hs
  · refine .take (.expectMark _) fun _ => .read (readsExpr_nestedSequence h).reads fun e => .skip fun _ => ?_
    refine .skip fun _ => .skip fun _ => .ifThen fun _ => ?_
    exact .span fun _ hs => .of_span hs (Nat.le_refl _) rfl (by simp) trivial
  · refine .bind (ensures_arrowFrom h false F n) fun arrow => .built fun hlo hset => .skip fun _ => .ifThen fun _ => ?_
    exact .pure fun _ hs => ⟨hlo, hset, hs⟩

theorem ensures_asyncStart (h : r.Sound) (F : Frame) (n : Nat) :
    Ensures (At F n []) (asyncStart r ctx) (Perhaps F n) := by
  refine .restart fun G hwhole hlo => Ensures.weaken (R := Perhaps G n) ?_ fun _ _ hs => hs.widen hwhole hlo
  refine .skip fun next => ?_
  split
  · exact .pure fun _ hs => hs
  split
  · refine .skip fun _ => .bind (ensures_functionFrom h true G n []) fun ⟨name, fn⟩ => ?_
    exact .span fun _ hs => .of_span hs (Nat.le_refl _) rfl (by simp) trivial
  · exact .lastAttempt (.skip fun _ => ensures_shortArrow h true G n)
  · exact .lastAttempt (.skip fun _ => ensures_arrowFrom h true G n)
  · split
    · exact .lastAttempt (.skip fun _ => ensures_arrowFrom h true G n)
    · exact .pure fun _ hs => hs
  · exact .pure fun _ hs => hs

/-! ## Operands -/

section Chains

variable {F : Frame} {chain : Chain}

/-- **An operand with the steps so far**: it ends where the reader is, if it may be called. -/
def ChainRead (F : Frame) (calls : Bool) (chain : Chain) (s : ReadState) : Prop :=
  Built F chain.expr s ∧ (calls = true → Tight chain.expr s)

theorem chainRead_call {calls : Bool} {args : List Expr} {s : ReadState} (hlo : F.lo ≤ chain.expr.span.lo)
    (hset : chain.expr.Set F.whole) (h : At F chain.expr.span.hi (chain.expr.nodes ++ args.flatMap Expr.nodes) s)
    (hrow : Row F.whole chain.expr.span.hi s.previousEnd args)
    (hclosed : (Node.call ⟨F.lo, s.previousEnd⟩ chain.expr args).Closed F.whole) :
    ChainRead F calls (chain.call ⟨F.lo, s.previousEnd⟩ args) s := by
  unfold Chain.call
  split
  · exact ⟨.of_span h (Nat.le_trans hlo hset.lo_le_hi) rfl (by simp) trivial, fun _ _ => rfl⟩
  · exact ⟨.call hlo hset h hrow hclosed, fun _ _ => rfl⟩

theorem led_typeArguments (s : ReadState) :
    Ensures (· = s) (typeArguments r ctx) fun _ t => s.Before t ∧ Led s.previousEnd t := by
  refine .bind (R := fun _ t => ∃ m, s.token.kind = .mark m ∧ m.toList.head? = some '<' ∧ s.Before t ∧
    s.token.span.lo < t.previousEnd) ?_ fun _ => .fix fun t ⟨m, hk, hm, hst, hlt⟩ => ?_
  · refine .eat_mark (fun hk => .pure ?_) fun _ => .look_mark (fun hk => ?_) fun _ => .fail
    · rintro _ rfl
      exact ⟨_, hk, rfl, s.before_next, s.lo_lt_hi_of_mark hk⟩
    · rintro s rfl _ t ht
      refine ⟨_, hk, rfl, t.2, ?_⟩
      cases ht
      obtain ⟨read, hsource, -, rfl, -⟩ := s.spelled_of_kind hk nofun
      exact Nat.lt_add_of_pos_right (byteLength_pos (by rw [hsource]; simp))
  · exact .bind (led_listUntil hk hm hst hlt _) fun _ => .pure fun _ ht => ht

/-- **A step after an operand** starts where the operand starts. -/
theorem ensures_chainStep (h : r.Sound) (calls : Bool) :
    Ensures (ChainRead F calls chain) (chainStep r ctx calls F.lo chain) fun o s =>
      o.elim (Built F chain.expr s) fun next => ChainRead F calls next s := by
  refine .fix fun s ⟨⟨hlo, hset, hs⟩, htight⟩ => ?_
  have hn : F.lo ≤ chain.expr.span.hi := Nat.le_trans hlo hset.lo_le_hi
  have stay : Ensures (At F chain.expr.span.hi chain.expr.nodes) (Pure.pure none : Reader (Option Chain)) fun o s =>
      o.elim (Built F chain.expr s) fun next => ChainRead F calls next s :=
    .pure fun _ hs => ⟨hlo, hset, hs⟩
  have step : ∀ {ns : List Node} {parts : List Expr} {optional : Bool}, (parts.flatMap Expr.nodes).Subperm ns →
      Ensures (At F chain.expr.span.hi ns) (do
        let span ← spanFrom F.lo
        return some (⟨.slot span parts, optional⟩ : Chain)) fun o s =>
          o.elim (Built F chain.expr s) fun next => ChainRead F calls next s :=
    fun hsub => .span fun _ hs => ⟨.of_span hs hn rfl (by simpa using hsub) trivial, fun _ => nofun⟩
  unfold chainStep
  split
  · exact .known hs stay
  refine .look_kind ?_
  split
  · refine .known hs (.skip fun _ => .skip fun k => ?_)
    split
    · exact .skip fun _ => step (by simp)
    · refine .skip fun name => .fix fun s hs => .look_span ?_
      split
      · refine .pure ?_
        rintro _ rfl
        exact ⟨.of_span hs hn rfl (by simp) trivial, fun _ => nofun⟩
      · refine .pure ?_
        rintro _ rfl
        exact ⟨.of_span hs hn rfl (by simp) trivial, fun _ _ => rfl⟩
  · split
    · exact .known hs stay
    refine .known hs (.skip fun _ => .skip fun call => ?_)
    split
    · exact .read (reads_arguments h) fun args => step (by simp)
    refine .skip fun index => ?_
    split
    · exact .read (readsExpr_nestedSequence h).reads fun e => .skip fun _ => step (by simp)
    refine .skip fun angle => ?_
    split
    · exact .skip fun _ => .read (reads_arguments h) fun args => step (by simp)
    refine .skip fun k => ?_
    split
    · exact .skip fun _ => step (by simp)
    · exact .skip fun _ => step (by simp)
  · exact .known hs (.skip fun _ => .read (readsExpr_nestedSequence h).reads fun e => .skip fun _ => step (by simp))
  · split
    · exact .known hs stay
    rename_i hcalls
    have hled : chain.expr.stepped = true → Led chain.expr.span.hi s :=
      fun hstep => .plain (htight (by simpa using hcalls) hstep)
    exact .bind (ensures_callArguments h hs hled) fun args => .span fun _ ht =>
      chainRead_call hlo hset ht.1 ht.2.1 ht.2.2
  · exact .known hs (.bind (ensures_template h true F _ _) fun parts => .span fun _ hs =>
      ⟨.of_span hs (Nat.le_refl _) rfl (by simp) trivial, fun _ => nofun⟩)
  · refine .known hs (.skip fun broken => ?_)
    split
    · exact .skip fun _ => step (by simp)
    · exact stay
  · split
    · rename_i hangle
      have hcalls : calls = true := (Bool.and_eq_true_iff.1 (Bool.and_eq_true_iff.1 hangle).1).2
      refine Ensures.weaken (.lastAttempt (R := ChainRead F calls) (.bind (led_typeArguments s) fun _ =>
        .fix fun t ⟨hst, hled⟩ => .look_mark (fun _ => ?_) fun _ => ?_)) fun o t ht => ?_
      · have hled : chain.expr.stepped = true → Led chain.expr.span.hi t := by
          intro hstep
          rwa [← htight hcalls hstep]
        exact .bind (ensures_callArguments h (hs.before hst) hled) fun args => .span fun _ ht =>
          chainRead_call hlo hset ht.1 ht.2.1 ht.2.2
      · refine .known (hs.before hst) (.skip fun quote => ?_)
        split
        · exact .bind (ensures_template h true F _ _) fun parts => .span fun _ hs =>
            ⟨.of_span hs (Nat.le_refl _) rfl (by simp) trivial, fun _ => nofun⟩
        · exact .skip fun _ => .ifNot fun _ => .span fun _ hs =>
            ⟨.of_span hs hn rfl (by simp) trivial, fun _ => nofun⟩
      · cases o with
        | none =>
          obtain rfl : t = s := ht
          exact ⟨hlo, hset, hs⟩
        | some next => exact ht
    · exact .known hs stay
  · exact .known hs stay

theorem ensures_chainFrom (h : r.Sound) (calls : Bool) (e : Expr) :
    Ensures (ChainRead F calls ⟨e, false⟩) (chainFrom r ctx calls F.lo e) (Built F) := by
  refine .bind (R := fun chain : Chain => Built F chain.expr) ?_ fun chain => .pure fun _ hs => hs
  exact Ensures.fold (I := ChainRead F calls) (fun _ => ensures_chainStep h calls) ⟨e, false⟩

/-- **An operand with the steps after it.** -/
theorem ensures_chained (h : r.Sound) {p : Reader Expr} (hp : ReadsExpr p) (hends : ∀ s, Ensures (· = s) p Tight)
    (n : Nat) : Ensures (At F n []) (p >>= chainFrom r ctx true F.lo) (Built F) := by
  refine .bind ((Ensures.tail hp).and (.fix fun s _ => hends s)) fun e => ?_
  exact (ensures_chainFrom h true e).strengthen fun _ ⟨hbuilt, htight⟩ => ⟨hbuilt, fun _ => htight⟩

end Chains

theorem ensures_madeFrom (h : r.Sound) {operand : Reader Expr} (hoperand : ReadsExpr operand) (F : Frame) (n : Nat) :
    Ensures (At F n []) (madeFrom r ctx F.lo operand) (Built F) := by
  refine .take (.expectWord _) fun _ => .skip fun dot => ?_
  split
  · exact .skip fun _ => .span fun _ hs => .of_span hs (Nat.le_refl _) rfl (by simp) trivial
  refine .restart fun G hwhole hlo => .bind (R := Built G) ?_ fun base => ?_
  · refine .skip fun again => ?_
    split
    · exact .tail (h.made ctx)
    · refine .bind (.tail hoperand) fun e => ?_
      split
      · exact .fail
      · exact .pure fun _ hs => hs
  refine .bind (.strengthen (ensures_chainFrom h false base) fun _ hs => ⟨hs, nofun⟩) fun callee => ?_
  refine Ensures.strengthen (.built fun hlo hset => ?_) fun _ hs => hs.widen hwhole hlo
  refine .ifThenDrop fun _ => .read (.intro fun F n => .skip fun call => ?_) fun args => ?_
  · split
    · exact .last (reads_arguments h)
    · exact .done (.refl _)
  · exact .span fun _ hs => .of_span hs (Nat.le_trans hlo hset.lo_le_hi) rfl (by simp) trivial

theorem ensures_importExpr (h : r.Sound) (F : Frame) (n : Nat) :
    Ensures (At F n []) (importExpr r ctx F.lo) (Built F) := by
  refine .take (.expectWord _) fun _ => .skip fun dot => ?_
  extract_lets call
  have hcall : ∀ u, Ensures (At F F.lo []) (call u) (Built F) := fun _ => .read (reads_arguments h) fun args =>
    .span fun _ hs => .of_span hs (Nat.le_refl _) rfl (by simp) trivial
  split
  · refine .skip fun _ => .skip fun known => ?_
    split
    · exact .span fun _ hs => .of_span hs (Nat.le_refl _) rfl (by simp) trivial
    · exact .skip fun _ => .skip fun _ => .ifNot hcall
  · exact hcall ()

theorem ensures_nameOrArrow (h : r.Sound) (F : Frame) (n : Nat) :
    Ensures (At F n []) (nameOrArrow r ctx F.lo) (Built F) := by
  refine .skip fun arrow => ?_
  split
  · exact ensures_shortArrow h false F n
  · exact .read (reads_ident ctx) fun id => .pure fun _ hs => .ident hs

theorem ensures_quoted (s : ReadState) : Ensures (· = s) quoted fun literal s' =>
    s' = s.next ∧ literal.1 = s.token.span ∧ (Expr.string literal.1 literal.2).Enclosed s.whole := by
  refine .look_token ?_
  split
  · rename_i value hk
    exact .pass (.pure fun _ hs => ⟨hs, rfl, _, s.text_of_quoted hk, by simp⟩)
  · rename_i value hne hk
    refine .pass (.pure fun _ hs => ⟨hs, rfl, value, s.text_of_quoted hk, fun v => ⟨nofun, fun hv => ?_⟩⟩)
    exact absurd hv (hne v)
  · exact .fail

theorem readsExpr_string : ReadsExpr (do
    let (span, value) ← quoted
    return .string span value) := by
  refine .start fun s => .bind (ensures_quoted s) fun ⟨span, value⟩ => .pure ?_
  rintro _ ⟨rfl, hspan, henc⟩
  exact .token (.passed s) hspan rfl henc

/-- **An object stands between its braces.** -/
theorem ensures_object (h : r.Sound) (s : ReadState) (hk : s.token.kind = .mark "\x7b") : Ensures (· = s) (do
    advance
    let members ← listUntil "\x7d" (objectMember r ctx)
    return .object (← spanFrom s.token.span.lo) members) (Built (.of s)) := by
  refine .known (At.of s) (.take .advance fun _ => ?_)
  have starts : Ensures (At (.of s) s.token.span.lo []) (listUntil "\x7d" (objectMember r ctx)) fun members _ =>
      ∀ m ∈ members, m.Starts s.whole := by
    refine Ensures.strengthen (all_listUntil s.whole _ (.fix fun s' hs' => ?_)) fun _ hs => hs.whole
    rw [← hs']
    exact .known (At.of s') (starts_objectMember h (.of s') _)
  refine .bind ((Ensures.frame (.listUntil _ (reads_objectMember h))).and ((passed_listUntil _ _).and starts))
    fun members => ?_
  refine .span fun s' ⟨hs, ⟨front, back, hwhole, hhi⟩, hstarts⟩ =>
    .of_span hs (Nat.le_refl _) rfl (by simp) ⟨⟨?_, ?_⟩, hstarts⟩
  · obtain ⟨⟨front, back, hwhole, hlo⟩, -⟩ := s.text_of_mark hk
    exact ⟨front, back, hwhole, hlo.symm⟩
  · exact ⟨front, back, by rw [← hs.whole]; exact hwhole, hhi⟩

theorem ensures_classExpr (h : r.Sound) {base : Reader Expr} (hbase : Reads base) (marks : List Expr) (F : Frame) (n : Nat) :
    Ensures (At F n (nodes marks)) (do
      let (name, members) ← classFrom r ctx base marks
      return .classExpr (← spanFrom F.lo) name members) (Built F) := by
  refine .bind (ensures_classFrom h hbase marks F n []) fun ⟨name, members⟩ => ?_
  exact .span fun _ hs => .of_span hs (Nat.le_refl _) rfl (by simp) trivial

/-! ## Where operands end -/

section Ends

variable {F : Frame} {n lo : Nat} {ns : List Node}

theorem unstepped_arrowFrom (isAsync : Bool) :
    Ensures (At F n ns) (arrowFrom r ctx isAsync lo) fun e _ => e.stepped = false :=
  .skip fun _ => .skip fun _ => .skip fun _ => .skip fun _ => .ifThen fun _ => .skip fun _ => .skip fun _ =>
    .span fun _ _ => rfl

theorem unstepped_shortArrow (isAsync : Bool) :
    Ensures (At F n ns) (shortArrow r ctx isAsync lo) fun e _ => e.stepped = false :=
  .skip fun _ => .skip fun _ => .ifThen fun _ => .skip fun _ => .skip fun _ => .span fun _ _ => rfl

theorem unstepped_nameOrArrow : Ensures (At F n ns) (nameOrArrow r ctx lo) fun e _ => e.stepped = false := by
  refine .skip fun arrow => ?_
  split
  · exact unstepped_shortArrow false
  · exact .skip fun _ => .pure fun _ _ => rfl

theorem unstepped_asyncStart : Ensures (At F n ns) (asyncStart r ctx) fun o s =>
    o.elim (At F n ns s) fun e => e.stepped = false := by
  refine .skip fun lo => .skip fun next => ?_
  split
  · exact .pure fun _ hs => hs
  split
  · exact .skip fun _ => .skip fun _ => .span fun _ _ => rfl
  · exact .lastAttempt (.skip fun _ => unstepped_shortArrow true)
  · exact .lastAttempt (.skip fun _ => unstepped_arrowFrom true)
  · split
    · exact .lastAttempt (.skip fun _ => unstepped_arrowFrom true)
    · exact .pure fun _ hs => hs
  · exact .pure fun _ hs => hs

theorem unstepped_element : Ensures (At F n ns) (element r ctx) fun e _ => e.stepped = false := by
  refine .skip fun lo => .skip fun _ => .skip fun opening => .ifThen fun _ => .skip fun attributes => .skip fun slash => ?_
  split
  · exact .skip fun _ => .ifNot fun _ => .skip fun _ => .pure fun _ _ => rfl
  · refine .skip fun _ => .ifNot fun _ => .skip fun inner => .skip fun _ => .skip fun _ => .skip fun closing => ?_
    exact .ifNot fun _ => .skip fun _ => .ifNot fun _ => .skip fun _ => .pure fun _ _ => rfl

theorem unstepped_madeFrom (operand : Reader Expr) :
    Ensures (At F n ns) (madeFrom r ctx lo operand) fun e _ => e.stepped = false := by
  refine .skip fun _ => .skip fun dot => ?_
  split
  · exact .skip fun _ => .span fun _ _ => rfl
  · refine .skip fun inner => .skip fun base => .skip fun callee => .ifThenDrop fun _ => .skip fun args => ?_
    exact .span fun _ _ => rfl

theorem unstepped_importExpr : Ensures (At F n ns) (importExpr r ctx lo) fun e _ => e.stepped = false := by
  refine .skip fun _ => .skip fun dot => ?_
  extract_lets call
  have hcall : ∀ u, Ensures (At F n ns) (call u) fun e _ => e.stepped = false :=
    fun _ => .skip fun args => .span fun _ _ => rfl
  split
  · refine .skip fun _ => .skip fun known => ?_
    split
    · exact .span fun _ _ => rfl
    · exact .skip fun _ => .skip fun _ => .ifNot hcall
  · exact hcall ()

theorem unstepped_regex : Ensures (At F n ns) regex fun e _ => e.stepped = false := by
  refine .skip fun lo => .skip fun s => ?_
  dsimp only
  split
  · exact .fail
  · exact .skip fun _ => .span fun _ _ => rfl

theorem tight_of_unstepped {e : Expr} {s : ReadState} (h : e.stepped = false) : Tight e s :=
  fun hstep => absurd hstep (by rw [h]; exact Bool.false_ne_true)

theorem tight_parenthesized : Ensures (At F n ns) (parenthesized r ctx) Tight := by
  have harrow : ∀ {lo : Nat}, Ensures (At F n ns) (arrowFrom r ctx false lo) Tight :=
    (unstepped_arrowFrom false).weaken fun _ _ => tight_of_unstepped
  refine .skip fun lo => .attempt (R := Tight) (.unlessBetter ?_ ?_) harrow fun e => .pure fun _ hs => hs
  · refine .skip fun _ => .skip fun _ => .skip fun _ => .skip fun _ => .skip fun _ => .ifThen fun _ => ?_
    exact .span fun _ _ _ => rfl
  · refine .bind (unstepped_arrowFrom false) fun arrow => .fix fun s harrow => .known (At.of s) (.skip fun _ => ?_)
    exact .ifThen fun _ => .pure fun _ _ => tight_of_unstepped harrow

/-- **An operand in parentheses ends where the reader is**; no other operand is a member or a call. -/
theorem tight_primary (depth : Nat) (s : ReadState) : Ensures (· = s) (primary r ctx depth) Tight := by
  cases depth with
  | zero => exact .fail
  | succ depth =>
    have other : ∀ {p : Reader Expr}, Ensures (At (.of s) s.previousEnd []) p (fun e _ => e.stepped = false) →
        Ensures (· = s) p Tight :=
      fun hp => (Ensures.known (At.of s) hp).weaken fun _ _ => tight_of_unstepped
    refine .look_here (.look_token ?_)
    split
    · exact other (.skip fun _ => .pure fun _ _ => rfl)
    · exact other (.skip fun _ => .pure fun _ _ => rfl)
    · exact other (.skip fun _ => .skip fun _ => .ifNot fun _ => .pure fun _ _ => rfl)
    · exact .known (At.of s) tight_parenthesized
    · exact other (.skip fun _ => .skip fun _ => .span fun _ _ => rfl)
    · exact other (.skip fun _ => .skip fun _ => .span fun _ _ => rfl)
    · exact other (.skip fun _ => .span fun _ _ => rfl)
    · exact other unstepped_regex
    · exact other unstepped_regex
    · refine other (.ifThen fun _ => ?_)
      extract_lets shown
      have hshown : Ensures (At (.of s) s.previousEnd []) shown fun e _ => e.stepped = false :=
        .bind unstepped_element fun e => .fix fun t he => .known (At.of t) (.skip fun _ => .pure fun _ _ => he)
      split
      · exact .attempt (R := fun e _ => e.stepped = false) hshown (unstepped_arrowFrom false) fun e => .pure fun _ hs => hs
      · exact hshown
    · exact other (.skip fun _ => .skip fun _ => .ifNot fun _ => .skip fun _ => .span fun _ _ => rfl)
    · exact other (.skip fun _ => .span fun _ _ => rfl)
    · exact other (.skip fun _ => .span fun _ _ => rfl)
    · exact other (unstepped_madeFrom _)
    · exact other unstepped_importExpr
    · refine other (.bind unstepped_asyncStart fun found => ?_)
      cases found with
      | some e => exact .pure fun _ hs => hs
      | none => exact unstepped_nameOrArrow
    · exact other (.skip fun _ => .skip fun _ => .skip fun _ => .skip fun _ => .ifNot fun _ => .pure fun _ _ => rfl)
    · split
      · exact other (.skip fun _ => .pure fun _ _ => rfl)
      · exact other unstepped_nameOrArrow
    · exact .fail

end Ends

/-- **An operand without its steps**, by the levels of `new` and `extends` around it. -/
theorem readsExpr_primary (h : r.Sound) (depth : Nat) : ReadsExpr (primary r ctx depth) := by
  induction depth with
  | zero => exact .intro fun _ _ => .fail
  | succ depth ih =>
    have hbase : Reads (do
        let lo ← here
        let e ← primary r ctx depth
        chainFrom r ctx true lo e) := ReadsExpr.reads (.fromHere fun _ n => ensures_chained h ih (tight_primary depth) n)
    refine .start fun s => .look_here (.look_token ?_)
    split
    · exact .pass (.pure fun _ hs => hs ▸ .token (.passed s) rfl (by simp) trivial)
    · exact .known (At.of s) (.tail readsExpr_string)
    · exact .pass (.known (.passed s) (.skip fun _ => .ifNot fun _ => .pure fun _ hs => .token hs rfl (by simp) trivial))
    · exact .known (At.of s) (.tail (readsExpr_parenthesized h))
    · refine .known (At.of s) (.take .advance fun _ => .read (.listUntil _ (reads_listElement h)) fun elements => ?_)
      exact .span fun _ hs => .of_span hs (Nat.le_refl _) rfl (by simp) trivial
    · rename_i hk
      exact ensures_object h s hk
    · refine .known (At.of s) (.bind (ensures_template h false _ _ _) fun parts => ?_)
      exact .span fun _ hs => .of_span hs (Nat.le_refl _) rfl (by simp) trivial
    · exact .known (At.of s) (.tail readsExpr_regex)
    · exact .known (At.of s) (.tail readsExpr_regex)
    · refine .known (At.of s) (.ifThen fun _ => ?_)
      extract_lets shown
      have hshown : Ensures (At (.of s) s.previousEnd []) shown (Built (.of s)) := .tail (readsExpr_element h)
      split
      · exact .attempt (R := Built (.of s)) hshown (ensures_arrowFrom h false (.of s) _) fun e => .pure fun _ hs => hs
      · exact hshown
    · refine .known (At.of s) (.read (reads_decorators h) fun marks => .skip fun _ => .ifNot fun _ => ?_)
      exact ensures_classExpr h hbase marks _ _
    · refine .known (At.of s) (.bind (ensures_functionFrom h false _ _ _) fun ⟨name, fn⟩ => ?_)
      exact .span fun _ hs => .of_span hs (Nat.le_refl _) rfl (by simp) trivial
    · exact .known (At.of s) (ensures_classExpr h hbase [] _ _)
    · exact .known (At.of s) (ensures_madeFrom h ih _ _)
    · exact .known (At.of s) (ensures_importExpr h _ _)
    · refine .known (At.of s) (.bind (ensures_asyncStart h _ _) fun found => ?_)
      cases found with
      | some e => exact .pure fun _ hs => hs
      | none => exact ensures_nameOrArrow h _ _
    · refine .pass (.known (.passed s) (.skip fun _ => .skip fun _ => .skip fun _ => .ifNot fun _ => ?_))
      exact .pure fun _ hs => .token hs rfl (by simp) trivial
    · split
      · exact .pass (.pure fun _ hs => hs ▸ .token (.passed s) rfl (by simp) trivial)
      · exact .known (At.of s) (ensures_nameOrArrow h _ _)
    · exact .fail

theorem readsExpr_made (h : r.Sound) : ReadsExpr (made r ctx) :=
  .fromHere fun F n => .skip fun s => ensures_madeFrom h (readsExpr_primary h s.turns) F n

theorem readsExpr_operand (h : r.Sound) : ReadsExpr (operand r ctx) :=
  .fromHere fun _ n => .skip fun s => ensures_chained h (readsExpr_primary h s.turns) (tight_primary s.turns) n

/-! ## Operators -/

theorem ensures_waiting (h : r.Sound) (F : Frame) (n : Nat) : Ensures (At F n []) (waiting r ctx) (Perhaps F n) := by
  refine .skip fun wait => ?_
  split
  · exact .pure fun _ hs => hs
  refine .restart fun G hwhole hlo => Ensures.weaken (R := Perhaps G n) ?_ fun _ _ hs => hs.widen hwhole hlo
  refine .skip fun next => ?_
  extract_lets wait outside
  have hwait : ∀ u, Ensures (At G n []) (wait u) (Perhaps G n) := fun _ => .take .advance fun _ =>
    .read (h.unary ctx).reads fun e => .skip fun _ => .ifThen fun _ => .span fun _ hs =>
      .of_span hs (Nat.le_refl _) rfl (by simp) trivial
  split
  · split
    · exact .pure fun _ hs => hs
    have houtside : ∀ u, Ensures (At G n []) (outside u) (Perhaps G n) := fun _ => .ifNot hwait
    split
    · split
      · exact .pure fun _ hs => hs
      · exact houtside ()
    · exact .pure fun _ hs => hs
    · exact houtside ()
  · exact hwait ()

theorem readsExpr_unary (h : r.Sound) : ReadsExpr (unary r ctx) := by
  refine .fromHere fun F n => .skip fun k => ?_
  split
  · exact .take .advance fun _ => .read (h.unary ctx).reads fun e => .skip fun _ => .ifThen fun _ => .span fun _ hs =>
      .of_span hs (Nat.le_refl _) rfl (by simp) trivial
  refine .bind (ensures_waiting h F n) fun found => ?_
  cases found with
  | some e => exact .pure fun _ hs => hs
  | none =>
  refine .skip fun angle => ?_
  split
  · refine .attempt (R := Built F) (ensures_arrowFrom h false F n) ?_ fun arrow => .pure fun _ hs => hs
    refine .take .advance fun _ => .skip fun fixed => .ifNot fun _ => .skip fun _ => ?_
    refine .read (h.unary ctx).reads fun e => .ifThen fun _ => ?_
    cases fixed with
    | true => exact .span fun _ hs => .of_span hs (Nat.le_refl _) rfl (by simp) trivial
    | false => exact .span fun _ hs => .of_span hs (Nat.le_refl _) rfl (by simp) trivial
  refine .bind (.tail (readsExpr_operand h)) fun e => .built fun hlo hset => ?_
  split
  · exact .pure fun _ hs => ⟨hlo, hset, hs⟩
  refine .skip fun broken => .skip fun counting => ?_
  split
  · refine .skip fun _ => .span fun _ hs => ?_
    exact .of_span hs (Nat.le_trans hlo hset.lo_le_hi) rfl (by simp) trivial
  · exact .pure fun _ hs => ⟨hlo, hset, hs⟩

theorem ensures_binaryStep (h : r.Sound) (level : Nat) {F : Frame} {left : Expr} :
    Ensures (Built F left) (binaryStep r ctx level F.lo left) fun o s =>
      o.elim (Built F left s) fun next => Built F next s := by
  refine .built fun hlo hset => ?_
  have hn : F.lo ≤ left.span.hi := Nat.le_trans hlo hset.lo_le_hi
  unfold binaryStep
  split
  · exact .pure fun _ hs => ⟨hlo, hset, hs⟩
  refine .skip fun broken => ?_
  extract_lets operator
  have hoperator : ∀ u, Ensures (At F left.span.hi left.nodes) (operator u) fun o s =>
      o.elim (Built F left s) fun next => Built F next s := by
    refine fun _ => .skip fun found => ?_
    split
    · exact .pure fun _ hs => ⟨hlo, hset, hs⟩
    split
    · exact .pure fun _ hs => ⟨hlo, hset, hs⟩
    refine .skip fun _ => .read (h.binary ctx _).reads fun right => .ifThen fun _ => .span fun _ hs => ?_
    exact .of_span hs hn rfl (by simp) trivial
  have hleft : Ensures (At F left.span.hi left.nodes) (do
      let span ← spanFrom F.lo
      return some (Expr.slot span [left])) fun o s => o.elim (Built F left s) fun next => Built F next s :=
    .span fun _ hs => .of_span hs hn rfl (by simp) trivial
  split
  · refine .skip fun cast => ?_
    split
    · refine .skip fun _ => .skip fun const => ?_
      split
      · exact .span fun _ hs => .of_span hs hn rfl (by simp) trivial
      · exact .skip fun _ => hleft
    refine .skip fun satisfies => ?_
    split
    · exact .skip fun _ => .skip fun _ => hleft
    · exact hoperator ()
  · exact hoperator ()

theorem readsExpr_binary (h : r.Sound) (level : Nat) : ReadsExpr (binary r ctx level) :=
  .fromHere fun F _ => .bind (.tail (readsExpr_unary h)) fun e =>
    Ensures.fold (I := Built F) (fun _ => ensures_binaryStep h level) e

theorem readsExpr_conditional (h : r.Sound) : ReadsExpr (conditional r ctx) := by
  refine .fromHere fun F n => .bind (.tail (readsExpr_binary h 0)) fun test => .built fun hlo hset => ?_
  have hn : F.lo ≤ test.span.hi := Nat.le_trans hlo hset.lo_le_hi
  split
  · exact .pure fun _ hs => ⟨hlo, hset, hs⟩
  refine .skip fun mark => ?_
  split
  · refine .read (h.expr _).reads fun yes => .skip fun _ => .read (h.expr _).reads fun no => ?_
    exact .span fun _ hs => .of_span hs hn rfl (by simp) trivial
  · exact .pure fun _ hs => ⟨hlo, hset, hs⟩

theorem ensures_yielding (h : r.Sound) (F : Frame) (n : Nat) : Ensures (At F n []) (yielding r ctx) (Perhaps F n) := by
  refine .skip fun begins => ?_
  split
  swap
  · exact .pure fun _ hs => hs
  refine .restart fun G hwhole hlo => Ensures.weaken (R := Perhaps G n) ?_ fun _ _ hs => hs.widen hwhole hlo
  have hbare : Ensures (At G G.lo []) (do
      let span ← spanFrom G.lo
      return some (Expr.compound span [])) (Perhaps G n) :=
    .span fun _ hs => .of_span hs (Nat.le_refl _) rfl (by simp) trivial
  have hgiven : Ensures (At G G.lo []) (do
      let e ← r.expr ctx
      let span ← spanFrom G.lo
      return some (Expr.compound span [e])) (Perhaps G n) :=
    .read (h.expr ctx).reads fun e => .span fun _ hs => .of_span hs (Nat.le_refl _) rfl (by simp) trivial
  refine .take .advance fun _ => .skip fun broken => ?_
  split
  · exact hbare
  refine .skip fun star => ?_
  split
  · exact hgiven
  refine .skip fun k => ?_
  split
  · split
    · exact hbare
    · exact hgiven
  · exact hbare
  · exact hbare
  · exact hbare
  · exact hgiven

theorem readsExpr_expr (h : r.Sound) : ReadsExpr (expr r ctx) := by
  refine .fromHere fun F n => .bind (ensures_yielding h F n) fun found => ?_
  cases found with
  | some e => exact .pure fun _ hs => hs
  | none =>
  refine .bind (.tail (readsExpr_conditional h)) fun left => .built fun hlo hset => ?_
  have hn : F.lo ≤ left.span.hi := Nat.le_trans hlo hset.lo_le_hi
  split
  · exact .pure fun _ hs => ⟨hlo, hset, hs⟩
  refine .skip fun assign => ?_
  split
  · exact .pure fun _ hs => ⟨hlo, hset, hs⟩
  refine .ifNot fun _ => .skip fun _ => .read (h.expr _).reads fun value => ?_
  extract_lets goal
  have hgoal : goal.nodes.Subperm left.nodes := by
    unfold goal
    split
    · exact (Expr.nodes_toPattern left).subperm
    · split <;> simp
  refine .span fun _ hs => .of_span hs hn rfl ?_ trivial
  simpa using hgoal

theorem readsExpr_sequence (h : r.Sound) : ReadsExpr (sequence r ctx) :=
  readsExpr_sequenceOf (readsExpr_expr h) (h.expr ctx)

end Source
end Localizer
