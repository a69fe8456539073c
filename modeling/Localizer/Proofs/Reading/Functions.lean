import Localizer.Source.Grammar.Functions
import Localizer.Proofs.Reading.Patterns
/-!
# Functions — what is read of functions and classes

The name of a function or class is read before what stands inside.
-/
namespace Localizer
namespace Source

open Reader Grammar

variable {r : Rules} {ctx : Context}

/-! ## Functions -/

section Kept

variable {keep : List (List Expr × Pattern) → List Pattern}

theorem reads_functionRest (h : r.Sound) (hkeep : ∀ params, (nodes (keep params)).Subperm (nodes params))
    (isAsync isGenerator : Bool) : Reads (functionRest r ctx keep isAsync isGenerator) :=
  .intro fun _ _ => .skip fun _ => .read (reads_parameters h) fun params => .skip fun _ =>
    .read (reads_braced h) fun body => .done (by simpa using hkeep params)

theorem reads_declaredFunction (h : r.Sound) (hkeep : ∀ params, (nodes (keep params)).Subperm (nodes params))
    (isAsync isGenerator : Bool) : Reads (declaredFunction r ctx keep isAsync isGenerator) := by
  refine .intro fun F n => ?_
  unfold declaredFunction
  extract_lets full inner
  have hfull : ∀ u, Ensures (At F n []) (full u) (Behind F) :=
    fun _ => .last (reads_functionRest h hkeep isAsync isGenerator)
  split
  · refine .read (.attempt (.intro fun F n => ?_)) fun bare => ?_
    · exact .skip fun _ => .read (reads_parameters h) fun params => .skip fun _ => .skip fun brace =>
        .ifThen fun _ => .skip fun _ => .done (by simpa using hkeep params)
    · cases bare with
      | none => exact hfull ()
      | some fn => exact .done (by simp)
  · exact hfull ()

end Kept

theorem subperm_withMarks (params : List (List Expr × Pattern)) :
    (nodes (params.map withMarks)).Subperm (nodes params) :=
  nodes_map_withMarks params ▸ .refl _

theorem subperm_setterParameter (params : List (List Expr × Pattern)) :
    (nodes (setterParameter params)).Subperm (nodes params) := by
  refine List.Sublist.subperm ?_
  fun_cases setterParameter params with
  | case1 => exact List.Sublist.refl _
  | case2 param =>
    obtain ⟨marks, p⟩ := param
    simp
  | case3 first param rest =>
    obtain ⟨marks, p⟩ := param
    have hp : p.nodes.Sublist (nodes marks ++ p.nodes ++ nodes rest) :=
      (List.sublist_append_right ..).trans (List.sublist_append_left ..)
    simpa using hp.trans (List.sublist_append_right (nodes first) _)

/-- **What a method of an object keeps of its parameters has been read.** -/
theorem subperm_kept (prelude : MemberPrelude) (params : List (List Expr × Pattern)) :
    (nodes (prelude.kept params)).Subperm (nodes params) := by
  unfold MemberPrelude.kept
  split
  · exact List.nil_subperm
  split
  · exact subperm_setterParameter params
  · exact subperm_withMarks params

theorem reads_optionalName : Reads optionalName := by
  refine .intro fun F n => .skip fun k => ?_
  split
  · split
    · exact .fail
    · exact .read reads_anyWord fun id => .done (by simp)
  · exact .done (.refl _)

theorem ensures_functionFrom (h : r.Sound) (isAsync : Bool) (F : Frame) (n : Nat) (ns : List Node) :
    Ensures (At F n ns) (functionFrom r ctx isAsync) fun found => At F F.lo (ns ++ nodes found) := by
  refine .take (.expectWord _) fun _ => .skip fun _ => .read reads_optionalName fun name => ?_
  refine .read (reads_functionRest h subperm_withMarks _ _) fun fn => .pure fun _ hs => ?_
  rwa [List.append_assoc] at hs

theorem ensures_functionDeclared (h : r.Sound) (isAsync : Bool) (F : Frame) (n : Nat) (ns : List Node) :
    Ensures (At F n ns) (functionDeclared r ctx isAsync) fun found => At F F.lo (ns ++ nodes found) := by
  refine .take (.expectWord _) fun _ => .skip fun _ => .read reads_optionalName fun name => ?_
  refine .read (reads_declaredFunction h subperm_withMarks _ _) fun fn => .pure fun _ hs => ?_
  rwa [List.append_assoc] at hs

/-! ## Classes -/

/-- **Something that may be missing.** -/
theorem Reads.optional {α : Type} [HasNodes α] {p : Reader α} (c : Reader Bool) (h : Reads p) :
    Reads (do if ← c then return [← p] else return []) := by
  refine .intro fun F n => .skip fun found => ?_
  split
  · exact .read h fun a => .done (by simp)
  · exact .done (.refl _)

theorem reads_indexSignature (words : List String) : Reads (indexSignature r ctx words) := by
  refine .intro fun F n => .skip fun bracket => ?_
  split
  · exact .last (.attempt (.intro fun F n => .skip fun _ => .read (reads_ident ctx) fun key => .skip fun _ =>
      .skip fun _ => .skip fun _ => .skip fun _ => .skip fun _ => .done (by simp)))
  · exact .done (.refl _)

theorem reads_classMember (h : r.Sound) : Reads (classMember r ctx) := by
  refine .intro fun F n => .skip fun empty => ?_
  split
  · exact .done (by simp)
  refine .read (reads_decorators h) fun marks => .skip fun static => ?_
  extract_lets inner member
  have hmember : ∀ u, Ensures (At F n ([] ++ nodes marks)) (member u) (Behind F) := by
    refine fun _ => .skip fun words => .read (reads_indexSignature words) fun index => ?_
    cases index with
    | some key => exact .done (by simp)
    | none =>
    rw [nodes_none, List.append_nil]
    refine .skip fun prelude => .read (reads_propertyKey h) fun key => ?_
    extract_lets field rest
    have hfield : ∀ u, Ensures (At F n ([] ++ nodes marks ++ nodes key)) (field u) (Behind F) :=
      fun _ => .skip fun _ => .read (.optional _ (h.expr _).reads) fun value => .skip fun _ => .done (by simp)
    have hrest : ∀ u, Ensures (At F n ([] ++ nodes marks ++ nodes key)) (rest u) (Behind F) := by
      refine fun _ => .skip fun _ => .skip fun _ => ?_
      split
      · refine .read (reads_declaredFunction h subperm_withMarks _ _) fun fn => ?_
        split
        · exact .done (subperm_self_append ..)
        · exact .done (by simp)
      · exact .ifThen hfield
    split
    · refine .skip fun question => ?_
      split
      · exact hrest ()
      · exact .skip fun _ => hrest ()
    · exact hrest ()
  split
  · refine .skip fun next => ?_
    split
    · exact .skip fun _ => .read (reads_braced h) fun body => .done (by simp)
    · exact hmember ()
  · exact hmember ()

theorem reads_implemented : Reads (implemented r ctx) := by
  have one : Reads (do
      let first ← ident ctx
      let _ ← collect do
        if ← eatMark "." then
          let _ ← anyWord
          return some ()
        else return none
      optionalTypeArguments r ctx
      return Expr.ident first) :=
    .intro fun _ _ => .read (reads_ident ctx) fun id => .skip fun _ => .skip fun _ => .done (by simp)
  exact .intro fun _ _ => .read one fun first => .read (.joined "," one) fun more => .done (by simp)

/-- **A class keeps the decorators before it** and adds what it reads. -/
theorem ensures_classFrom (h : r.Sound) {base : Reader Expr} (hbase : Reads base) (marks : List Expr) (F : Frame) (n : Nat)
    (ns : List Node) : Ensures (At F n (ns ++ nodes marks)) (classFrom r ctx base marks) fun found =>
      At F F.lo (ns ++ nodes found) := by
  refine .take (.expectWord _) fun _ => .read (.intro fun F n => .skip fun k => ?_) fun name => .skip fun _ => ?_
  · split
    · split
      · exact .done (.refl _)
      · exact .read reads_anyWord fun id => .done (by simp)
    · exact .done (.refl _)
  refine .read (.intro fun F n => .skip fun extended => ?_) fun extended => ?_
  · split
    · exact .read hbase fun e => .ifThen fun _ => .done (by simp)
    · exact .done (.refl _)
  refine .read (.intro fun F n => .skip fun promised => ?_) fun promised => ?_
  · split
    · exact .skip fun _ => .last reads_implemented
    · exact .done (.refl _)
  refine .skip fun _ => .read (.allUntil _ (reads_classMember h)) fun members => .pure fun s hs => ?_
  -- the decorators have been read before the name
  let rest := nodes extended ++ nodes promised ++ nodes members
  have hread : At F F.lo (ns ++ (nodes marks ++ (nodes name ++ rest))) s := by simpa [rest] using hs
  refine hread.sub ((List.subperm_append_left ns).2 ?_)
  simpa [rest] using (List.perm_append_comm_assoc (nodes name) (nodes marks) rest).subperm

end Source
end Localizer
