import Localizer.Source.Grammar.Patterns
import Localizer.Proofs.Reading
/-!
# Patterns — what is read inside patterns, parameters and arguments

The arguments of a call stand in a row (`ensures_arguments`): a comma comes between any two of them, and the closing
parenthesis behind the last.
-/
namespace Localizer
namespace Source

open Reader Grammar

/-- **Rules that read what they give.** -/
structure Rules.Sound (r : Rules) : Prop where
  expr : ∀ ctx, ReadsExpr (r.expr ctx)
  binary : ∀ ctx level, ReadsExpr (r.binary ctx level)
  unary : ∀ ctx, ReadsExpr (r.unary ctx)
  made : ∀ ctx, ReadsExpr (r.made ctx)
  target : ∀ ctx, Reads (r.target ctx)
  stmt : ∀ ctx, Reads (r.stmt ctx)
  element : ∀ ctx, Reads (r.element ctx)

instance : HasNodes KeyRead := ⟨fun key => nodes key.ident ++ nodes key.computed⟩

@[simp] theorem nodes_keyRead (key : KeyRead) : nodes key = nodes key.ident ++ key.computed.flatMap Expr.nodes := rfl

variable {r : Rules} {ctx : Context}

/-- **More of the same after a mark.** -/
theorem Reads.joined {α : Type} [HasNodes α] {p : Reader α} (m : String) (h : Reads p) :
    Reads (Reader.collect do
      if ← eatMark m then return some (← p) else return none) := by
  refine .collect (.intro fun F n => .skip fun more => ?_)
  split
  · exact .read h fun a => .done (by simp)
  · exact .done (.refl _)

theorem readsExpr_sequenceOf {first more : Reader Expr} (hfirst : ReadsExpr first) (hmore : ReadsExpr more) :
    ReadsExpr (sequenceOf first more) := by
  refine .fromHere fun F n => .expr hfirst fun e hlo hset => .skip fun comma => ?_
  split
  · refine .read (.joined "," hmore.reads) fun es => ?_
    exact .span fun _ hs => .of_span hs (Nat.le_trans hlo hset.lo_le_hi) rfl (by simp) trivial
  · exact .pure fun _ hs => ⟨hlo, hset, hs⟩

theorem readsExpr_nestedSequence (h : r.Sound) : ReadsExpr (nestedSequence r ctx) :=
  readsExpr_sequenceOf (h.expr ctx) (h.expr ctx)

theorem reads_braced (h : r.Sound) : Reads (braced r ctx) :=
  .intro fun _ _ => .skip fun _ => .last (.allUntil _ (h.stmt ctx))

/-! ## Patterns -/

theorem extends_withDefault (h : r.Sound) (p : Pattern) : Extends p (withDefault r ctx p) := by
  intro F n ns
  refine .skip fun default => ?_
  split
  · exact .read (h.expr _).reads fun e => .pure fun _ hs => by simpa using hs
  · exact .pure fun _ hs => hs

theorem reads_propertyKey (h : r.Sound) : Reads (propertyKey r ctx) := by
  refine .start fun s => .look_token ?_
  split
  · rename_i w escaped hk
    exact .pass (.pure fun _ hs => hs ▸ laid_word hk)
  · exact .pass (.pure fun _ _ => .nil)
  · exact .pass (.pure fun _ _ => .nil)
  · exact .pass (.pure fun _ _ => .nil)
  · exact .pass (.pure fun _ _ => .nil)
  · refine .known (At.of s) ?_
    refine .skip fun _ => .read (h.expr _).reads fun e => .skip fun _ => .done (by simp)
  · exact .fail

theorem reads_propertyPattern (h : r.Sound) : Reads (propertyPattern r ctx) := by
  refine .intro fun F n => .skip fun rest => ?_
  split
  · exact .last (h.target ctx)
  refine .read (reads_propertyKey h) fun key => .skip fun colon => ?_
  split
  · refine .read (h.target ctx) fun p => .extend (extends_withDefault h p) fun p => ?_
    exact .done (by simp)
  split
  · rename_i id hid
    split
    · refine Ensures.strengthen (.lastExtend (extends_withDefault h (.ident id))) fun s hs => hs.sub ?_
      simp [hid]
    · exact .fail
  · exact .fail

theorem reads_elementPattern (h : r.Sound) : Reads (elementPattern r ctx) := by
  refine .intro fun F n => .skip fun hole => ?_
  split
  · exact .done (by simp)
  refine .skip fun rest => ?_
  split
  · exact .last (h.target ctx)
  · exact .read (h.target ctx) fun p => .lastExtend (extends_withDefault h p)

theorem reads_target (h : r.Sound) : Reads (target r ctx) := by
  refine .intro fun F n => .skip fun list => ?_
  split
  · exact .read (.listUntil _ (reads_elementPattern h)) fun ps => .done (by simp)
  refine .skip fun object => ?_
  split
  · exact .read (.listUntil _ (reads_propertyPattern h)) fun ps => .done (by simp)
  · exact .read (reads_ident ctx) fun id => .done (by simp)

/-! ## Arguments -/

theorem readsExpr_argument (h : r.Sound) : ReadsExpr (do
    let lo ← here
    if ← eatMark "..." then
      let e ← r.expr ctx.bracketed
      return .spread (← spanFrom lo) e
    r.expr ctx.bracketed) := by
  refine .fromHere fun F n => .eatMark ?_ ?_
  · refine .expr (h.expr _) fun e hlo hset => ?_
    exact .span fun _ hs => .of_span hs (Nat.le_trans hlo hset.lo_le_hi) rfl (by simp) trivial
  · exact .tail (h.expr _)

/-- **Arguments that have been read** since `F` began and `n` was passed. -/
structure ArgsRead (F : Frame) (n : Nat) (ns : List Node) (args : List Expr) (s : ReadState) : Prop where
  read : At F n (ns ++ args.flatMap Expr.nodes) s
  within : ∀ e ∈ args, n ≤ e.span.lo ∧ e.span.hi ≤ s.previousEnd
  set : ∀ e ∈ args, e.Set F.whole
  apart : args.Pairwise fun a b => a.span.hi < b.span.lo

/-- **Between two arguments**: a comma has been passed, unless the closing parenthesis comes next. -/
structure ArgsPassed (F : Frame) (n : Nat) (ns : List Node) (args : List Expr) (s : ReadState) : Prop
    extends ArgsRead F n ns args s where
  behind : s.token.kind ≠ .mark ")" → ∀ e ∈ args, e.span.hi < s.previousEnd

namespace ArgsRead

variable {F : Frame} {n : Nat} {ns : List Node} {args : List Expr} {s : ReadState}

/-- **Behind a mark, every argument has been passed.** -/
theorem lt_of_mark {m : String} (h : ArgsRead F n ns args s) (hk : s.token.kind = .mark m) :
    ∀ e ∈ args, e.span.hi < s.next.previousEnd := by
  intro e he
  calc e.span.hi ≤ s.previousEnd := (h.within e he).2
    _ ≤ s.token.span.lo := s.placed.start_le
    _ < s.token.span.hi := s.lo_lt_hi_of_mark hk

theorem next {m : String} (h : ArgsRead F n ns args s) (hk : s.token.kind = .mark m) : ArgsPassed F n ns args s.next where
  read := h.read.before s.before_next
  within e he := ⟨(h.within e he).1, Nat.le_of_lt (h.lt_of_mark hk e he)⟩
  set := h.set
  apart := h.apart
  behind _ := h.lt_of_mark hk

theorem close {m : String} (h : ArgsRead F n ns args s) (hk : s.token.kind = .mark m) :
    Row F.whole n s.next.previousEnd args :=
  ⟨fun e he => ⟨(h.within e he).1, h.lt_of_mark hk e he⟩, h.set, h.apart⟩

end ArgsRead

/-- **One more argument**, behind those that have been passed. -/
theorem ArgsPassed.push {F : Frame} {n : Nat} {ns : List Node} {args : List Expr} {s : ReadState} {e : Expr} {s' : s.From}
    (h : ArgsPassed F n ns args s) (hk : s.token.kind ≠ .mark ")") (hb : Built (.of s) e s'.1) :
    ArgsRead F n ns (args ++ [e]) s'.1 := by
  have hle : s.previousEnd ≤ e.span.lo := Nat.le_trans s.placed.start_le hb.lo_le
  refine ⟨?_, ?_, ?_, ?_⟩
  · simpa using h.read.append s'.2 hb.read.laid
  · intro d hd
    rcases List.mem_append.1 hd with hd | hd
    · exact ⟨(h.within d hd).1, Nat.le_trans (h.within d hd).2 s'.2.previousEnd⟩
    · obtain rfl := List.mem_singleton.1 hd
      exact ⟨Nat.le_trans h.read.floor_le hle, hb.read.floor_le⟩
  · intro d hd
    rcases List.mem_append.1 hd with hd | hd
    · exact h.set d hd
    · obtain rfl := List.mem_singleton.1 hd
      have hset := hb.set
      rwa [show (Frame.of s).whole = F.whole from h.read.whole] at hset
  · refine List.pairwise_append.2 ⟨h.apart, List.pairwise_singleton _ _, fun d hd e' he' => ?_⟩
    obtain rfl := List.mem_singleton.1 he'
    exact Nat.lt_of_lt_of_le (h.behind hk d hd) hle

/-- **The arguments of a call stand in a row.** -/
theorem ensures_arguments (h : r.Sound) (F : Frame) (n : Nat) (ns : List Node) :
    Ensures (At F n ns) (arguments r ctx) fun args s =>
      At F n (ns ++ args.flatMap Expr.nodes) s ∧ Row F.whole n s.previousEnd args := by
  refine .skip fun _ => Ensures.strengthen (P := ArgsPassed F n ns []) ?_ fun s hs =>
    ⟨⟨by simpa using hs, by simp, by simp, .nil⟩, by simp⟩
  refine Ensures.collect (Z := fun args s => At F n (ns ++ args.flatMap Expr.nodes) s ∧ Row F.whole n s.previousEnd args)
    fun args => ?_
  refine .fix fun s hs => .eat_mark (fun hk => .pure ?_) fun hk => ?_
  · rintro _ rfl
    exact ⟨hs.read.before s.before_next, hs.close hk⟩
  refine .known_expr (readsExpr_argument h) fun e s' hb => ?_
  have hs' := hs.push hk hb
  refine .look_mark (fun hk' => .pure ?_) fun hk' => .pass_mark fun hk' => .pure ?_
  · rintro _ rfl
    exact ⟨hs', fun hne => absurd hk' hne⟩
  · rintro _ rfl
    exact hs'.next hk'

/-- **No arguments**: the parenthesis is closed at once. -/
theorem closed_arguments (s : ReadState) : Ensures (· = s) (arguments r ctx) fun args s' =>
    args = [] → s.token.kind = .mark "(" ∧ s.next.token.kind = .mark ")" ∧ s' = s.next.next := by
  refine .pass_mark fun hopen => Ensures.strengthen (P := fun s' => ([] : List Expr) = [] → s' = s.next) ?_ fun _ hs _ => hs
  refine Ensures.collect (J := fun args s' => args = [] → s' = s.next) fun args => ?_
  refine .fix fun s' hs' => .eat_mark (fun hk => .pure ?_) fun _ => .bind .any fun e => .bind .any fun closed => ?_
  · rintro _ rfl hnil
    rw [hs' hnil] at hk ⊢
    exact ⟨hopen, hk, rfl⟩
  extract_lets jp
  have more : ∀ u, Ensures (fun _ => True) (jp u) fun o s' => o.elim (args = [] → s.token.kind = .mark "(" ∧
      s.next.token.kind = .mark ")" ∧ s' = s.next.next) fun e => args ++ [e] = [] → s' = s.next :=
    fun _ => .pure fun _ _ hnil => absurd hnil (by simp)
  split
  · exact more ()
  · exact .bind .any more

/-- **The arguments of a call behind its callee.** -/
theorem ensures_callArguments (h : r.Sound) {F : Frame} {ns : List Node} {callee : Expr} {s : ReadState}
    (hs : At F callee.span.hi ns s) (hled : callee.stepped = true → Led callee.span.hi s) :
    Ensures (· = s) (arguments r ctx) fun args s' => At F callee.span.hi (ns ++ args.flatMap Expr.nodes) s' ∧
      Row F.whole callee.span.hi s'.previousEnd args ∧
      (Node.call ⟨F.lo, s'.previousEnd⟩ callee args).Closed F.whole := by
  refine ((Ensures.known hs (ensures_arguments h F _ ns)).and (closed_arguments s)).weaken ?_
  rintro args s' ⟨⟨hread, hrow⟩, hclosed⟩
  refine ⟨hread, hrow, ?_⟩
  cases args with
  | nil =>
    obtain ⟨hopen, hclose, rfl⟩ := hclosed rfl
    intro hstep
    rw [← hs.whole]
    exact (hled hstep).unfilled hopen hclose
  | cons => trivial

theorem reads_arguments (h : r.Sound) : Reads (arguments r ctx) :=
  .intro fun F n => (ensures_arguments h F n []).weaken fun _ _ hs => hs.1.laid

/-! ## Decorators and parameters -/

theorem reads_decorator (h : r.Sound) : Reads (decorator r ctx) := by
  refine .intro fun _ _ => .skip fun _ => .last (ReadsExpr.reads (.fromHere fun F n => ?_))
  refine .bind (R := fun base s => Built F base s ∧ Tight base s) ?_ fun base => .fix fun s ⟨hbase, htight⟩ => ?_
  · refine .eatMark ?_ ?_
    · refine .read (readsExpr_nestedSequence h).reads fun e => .skip fun _ => ?_
      exact .span fun _ hs => ⟨.of_span hs (Nat.le_refl _) rfl (by simp) trivial, fun _ => rfl⟩
    · refine .read (reads_ident ctx) fun first => ?_
      refine Ensures.strengthen (Ensures.fold (I := fun base s => Built F base s ∧ Tight base s) (fun e => ?_) _)
        fun _ hs => ⟨.ident hs, nofun⟩
      refine .fix fun s ⟨hbuilt, htight⟩ => .eat_mark (fun _ => ?_) fun _ => .pure ?_
      · refine .known (hbuilt.read.before s.before_next) (.skip fun name => .span fun _ hs => ⟨?_, fun _ => rfl⟩)
        exact .of_span hs (Nat.le_trans hbuilt.lo_le hbuilt.set.lo_le_hi) rfl (by simp) trivial
      · rintro _ rfl
        exact ⟨hbuilt, htight⟩
  · extract_lets jp
    have finish : ∀ u t, At F base.span.hi base.nodes t → (base.stepped = true → Led base.span.hi t) →
        Ensures (· = t) (jp u) (Built F) := by
      refine fun _ t ht hled => .look_mark (fun _ => .bind (ensures_callArguments h ht hled) fun args => ?_) fun _ => ?_
      · exact .span fun _ hs => .call hbase.lo_le hbase.set hs.1 hs.2.1 hs.2.2
      · refine .pure ?_
        rintro _ rfl
        exact ⟨hbase.lo_le, hbase.set, ht⟩
    have hled : base.stepped = true → Led base.span.hi s := fun hstep => .plain (htight hstep)
    split
    · refine .look_mark (fun hk => ?_) fun _ => finish () s hbase.read hled
      refine .attempt (R := fun _ t => s.Before t ∧ Led s.previousEnd t) (.pass ?_) (finish () s hbase.read hled) ?_
      · refine .bind (led_listUntil hk rfl s.before_next (s.lo_lt_hi_of_mark hk) _) fun _ => ?_
        refine .fix fun t ht => .look_mark (fun _ => .pure ?_) fun _ => .fail
        rintro _ rfl
        exact ht
      · refine fun _ => .fix fun t ⟨hst, ht⟩ => finish () t (hbase.read.before hst) fun hstep => ?_
        rwa [← htight hstep]
    · exact finish () s hbase.read hled

theorem reads_decorators (h : r.Sound) : Reads (decorators r ctx) := by
  refine .intro fun F n => ?_
  unfold decorators
  split
  · refine .last (.collect (.intro fun F n => .skip fun found => ?_))
    split
    · exact .read (reads_decorator h) fun e => .done (by simp)
    · exact .done (.refl _)
  · exact .done (.refl _)

theorem reads_parameterFrom (h : r.Sound) {plain : Reader Pattern} (hplain : Reads plain) :
    Reads (parameterFrom r ctx plain) := by
  refine .intro fun F n => .skip fun rest => ?_
  split
  · exact .read (h.target ctx) fun p => .skip fun _ => .lastExtend (extends_withDefault h p)
  refine .read hplain fun p => ?_
  split
  · exact .skip fun _ => .skip fun _ => .lastExtend (extends_withDefault h p)
  · exact .skip fun _ => .lastExtend (extends_withDefault h p)

theorem reads_parameter (h : r.Sound) : Reads (parameter r ctx) := by
  have hplain : Reads (do
      if ctx.dialect.types && (← isWord "this") then return .ident (← anyWord)
      r.target ctx) := by
    refine .intro fun F n => .skip fun this => ?_
    split
    · exact .read reads_anyWord fun id => .done (by simp)
    · exact .last (h.target ctx)
  exact .intro fun F n => .read (reads_decorators h) fun marks => .skip fun _ =>
    .read (reads_parameterFrom h hplain) fun p => .done (by simp)

theorem reads_parameters (h : r.Sound) : Reads (parameters r ctx) :=
  .intro fun _ _ => .skip fun _ => .last (.listUntil _ (reads_parameter h))

theorem reads_arrowParameters (h : r.Sound) : Reads (arrowParameters r ctx) :=
  .intro fun _ _ => .skip fun _ => .last (.listUntil _ (reads_parameterFrom h (h.target ctx)))

theorem nodes_withMarks (param : List Expr × Pattern) : (withMarks param).nodes = nodes param := by
  obtain ⟨marks, p⟩ := param
  unfold withMarks
  split <;> simp_all

theorem nodes_map_withMarks (params : List (List Expr × Pattern)) : nodes (params.map withMarks) = nodes params := by
  rw [nodes_list, nodes_list, List.flatMap_map]
  exact List.flatMap_congr fun param _ => nodes_withMarks param

end Source
end Localizer
