import Localizer.Source.Grammar.Elements
import Localizer.Proofs.Reading.Functions
/-!
# Elements — what is read inside markup

An element ends with its closing bracket, which is left as the current token (`ensures_element`); one step further it is
an expression like any other (`readsExpr_element`).
-/
namespace Localizer
namespace Source

open Reader Grammar
open Text (byteLength)

variable {r : Rules} {ctx : Context}

instance : HasNodes ElementName := ⟨fun name => nodes name.reads⟩

@[simp] theorem nodes_elementName (name : ElementName) : nodes name = name.reads.flatMap Expr.nodes := rfl

theorem reads_hyphenated : Reads hyphenated := by
  refine .start fun s => .look_here (.look_state ?_)
  extract_lets name
  split
  · rename_i hname
    have hne : s.source.take name.length ≠ [] := by
      rw [take_length_takeWhile]
      intro hnil
      simp [name, hnil] at hname
    rintro s rfl id s' h
    cases h
    exact .name ⟨_, s.token.span.lo, _⟩ s.placed.source.boundary (Nat.lt_add_of_pos_right (byteLength_pos hne))
  · exact .fail

theorem reads_elementName : Reads elementName := by
  refine .intro fun F n => .read reads_hyphenated fun first => .skip fun colon => ?_
  split
  · exact .skip fun _ => .done (by simp)
  refine .skip fun rest => .done ?_
  simp only [nodes_elementName]
  split <;> simp

theorem reads_elementAttribute (h : r.Sound) : Reads (elementAttribute r ctx) := by
  refine .intro fun F n => .skip fun spread => ?_
  split
  · exact .skip fun _ => .read (h.expr _).reads fun e => .skip fun _ => .done (by simp)
  refine .skip fun _ => .skip fun colon => .ifThenDrop fun _ => .skip fun value => ?_
  split
  · refine .skip fun brace => ?_
    split
    · exact .read (readsExpr_nestedSequence h).reads fun e => .skip fun _ => .done (by simp)
    refine .skip fun markup => ?_
    split
    · exact .read (h.element _) fun e => .skip fun _ => .done (by simp)
    · exact .skip fun _ => .done (.refl _)
  · exact .done (.refl _)

theorem reads_children (h : r.Sound) : Reads (children r ctx) := by
  refine .intro fun F n => .read (.collect (.intro fun F n => .skip fun s => .ifThen fun _ => .skip fun _ => ?_))
    fun parts => .done (by rw [nodes_flatten, List.nil_append])
  refine .skip fun brace => ?_
  split
  · refine .skip fun empty => ?_
    split
    · exact .done (by simp)
    · exact .skip fun _ => .read (readsExpr_nestedSequence h).reads fun e => .skip fun _ => .ifNot fun _ => .done (by simp)
  · refine .skip fun closing => ?_
    split
    · exact .done (by simp)
    · exact .read (h.element _) fun e => .done (by simp)

/-- **The name of a tag**, if it has one. -/
theorem reads_tagName : Reads (do if ← isMark ">" then return none else return some (← elementName)) := by
  refine .intro fun F n => .skip fun none => ?_
  split
  · exact .done (.refl _)
  · exact .read reads_elementName fun name => .done (by simp)

theorem flatMap_nodes_reads (name : Option ElementName) :
    ((name.map (·.reads)).getD []).flatMap Expr.nodes = nodes name := by
  cases name <;> simp

theorem reads_attributes (h : r.Sound) (opening : Option ElementName) : Reads (do
    if opening.isNone then return []
    collect do
      if (← isMark ">") || (← isMark "/") then return none
      return some (← elementAttribute r ctx)) := by
  refine .intro fun F n => ?_
  split
  · exact .done (.refl _)
  · refine .last (.collect (.intro fun F n => .skip fun _ => .skip fun _ => ?_))
    split
    · exact .done (.refl _)
    · exact .read (reads_elementAttribute h) fun es => .done (by simp)

/-- **An element ends with the current token.** -/
theorem ensures_element (h : r.Sound) (s : ReadState) : Ensures (· = s) (element r ctx) fun e s' =>
    At (.of s) s.token.span.lo e.nodes s' ∧ e.span = ⟨s.token.span.lo, s'.token.span.hi⟩ ∧ e.Enclosed s.whole := by
  refine .look_here (.known (At.of s) ?_)
  -- both kinds of elements end by looking at the closing bracket
  have finish : ∀ (ns : List Node) (parts : List Expr), (parts.flatMap Expr.nodes).Subperm ns →
      Ensures (At (.of s) s.token.span.lo ns) (do
        let t ← token
        return Expr.compound ⟨s.token.span.lo, t.span.hi⟩ parts) fun e s' =>
          At (.of s) s.token.span.lo e.nodes s' ∧ e.span = ⟨s.token.span.lo, s'.token.span.hi⟩ ∧ e.Enclosed s.whole := by
    intro ns parts hsub
    refine .fix fun s' hs => .look_token (.pure ?_)
    rintro _ rfl
    exact ⟨hs.sub (by simpa using hsub), rfl, trivial⟩
  refine .take (.expectMark _) fun _ => .read reads_tagName fun opening => .ifThen fun _ => ?_
  refine .read (reads_attributes h opening) fun attributes => .skip fun slash => ?_
  have hattributes : attributes.flatten.flatMap Expr.nodes = nodes attributes := nodes_flatten attributes
  split
  · refine .skip fun _ => .ifNot fun _ => finish _ _ ?_
    rw [List.flatMap_append, flatMap_nodes_reads, hattributes]
    exact .refl _
  · refine .skip fun _ => .ifNot fun _ => .read (reads_children h) fun inner => .skip fun _ => .skip fun _ => ?_
    refine .read reads_tagName fun closing => .ifNot fun _ => .skip fun _ => .ifNot fun _ => finish _ _ ?_
    simp only [List.flatMap_append, flatMap_nodes_reads, hattributes]
    exact .refl _

/-- **An element with its closing bracket** is an expression like any other. -/
theorem readsExpr_element (h : r.Sound) : ReadsExpr (do
    let e ← element r ctx
    advance
    return e) := by
  refine ⟨fun {s e s'} hp => ?_⟩
  refine Ensures.bind (ensures_element h s) (fun e => ?_) s rfl e s' hp
  refine .fix fun t ⟨hread, hspan, henc⟩ => .pass (.pure ?_)
  rintro _ rfl
  exact .of_span (hread.before t.before_next) (Nat.le_refl _) hspan (.refl _) henc

theorem reads_element (h : r.Sound) : Reads (element r ctx) :=
  .start fun s => (ensures_element h s).weaken fun _ _ hs => hs.1.laid

end Source
end Localizer
