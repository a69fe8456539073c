import Localizer.Text.Units
/-!
# Replacement — stretches of a text exchanged all at once

`Replaced start cs edits out` says what it means to replace stretches of a text simultaneously: `cs` is cut into kept
and replaced stretches in turn, the replaced ones are exactly the byte ranges of `edits`, and `out` has the new contents
in their places and everything else as it was (`start` is the offset of the first character of `cs`).  A text and its
edits leave no choice (`Replaced.unique`), and edits to the right of others can be made first (`Replaced.append_edit`).
-/
namespace Localizer
namespace Text

/-- **A byte range and the text that takes its place.** -/
structure ByteEdit where
  lo : Nat
  hi : Nat
  content : List Char
  deriving DecidableEq, Repr, Inhabited

/-- **Ranges of a text replaced at once**, the text starting at offset `start`. -/
inductive Replaced : Nat → List Char → List ByteEdit → List Char → Prop
  | none (start : Nat) (cs : List Char) : Replaced start cs [] cs
  | edit {start : Nat} {e : ByteEdit} {es : List ByteEdit} {kept old rest out : List Char}
      (lo_eq : start + byteLength kept = e.lo) (hi_eq : e.lo + byteLength old = e.hi)
      (tail : Replaced e.hi rest es out) :
      Replaced start (kept ++ old ++ rest) (e :: es) (kept ++ e.content ++ out)

/-- **A text and its edits leave no choice.** -/
theorem Replaced.unique {start : Nat} {cs : List Char} {es : List ByteEdit} {out out' : List Char}
    (h : Replaced start cs es out) (h' : Replaced start cs es out') : out = out' := by
  induction h generalizing out' with
  | none start cs => cases h'; rfl
  | @edit start e es kept old rest out hlo hhi _ ih =>
    generalize hcs : kept ++ old ++ rest = cs at h'
    cases h' with
    | @edit _ _ _ kept' old' rest' out' hlo' hhi' tail' =>
      rw [List.append_assoc, List.append_assoc] at hcs
      obtain ⟨rfl, hrest⟩ := append_inj_of_byteLength hcs (by omega)
      obtain ⟨rfl, rfl⟩ := append_inj_of_byteLength hrest (by omega)
      rw [ih tail']

/-- **What is behind all edits stays**, whatever it is. -/
theorem Replaced.behind {start : Nat} {cs : List Char} {es : List ByteEdit} {out : List Char}
    (h : Replaced start cs es out) : ∀ {front back : List Char}, cs = front ++ back →
      (∀ e ∈ es, e.hi ≤ start + byteLength front) →
        ∃ front', out = front' ++ back ∧ Replaced start front es front' := by
  induction h with
  | none start cs =>
    intro front back hcs _
    exact ⟨front, hcs, .none start front⟩
  | @edit start e es kept old rest out hlo hhi _ ih =>
    intro front back hcs hle
    have he := hle e List.mem_cons_self
    have hfront : byteLength (kept ++ old) ≤ byteLength front := by
      rw [byteLength_append]
      omega
    obtain ⟨m, rfl, hrest⟩ := append_split_of_byteLength_le hcs hfront
    obtain ⟨m', rfl, hm⟩ := ih hrest (fun e' he' => by
      have := hle e' (List.mem_cons_of_mem _ he')
      rw [byteLength_append, byteLength_append] at this
      omega)
    exact ⟨kept ++ e.content ++ m', by simp only [List.append_assoc], .edit hlo hhi hm⟩

/-- **One more edit behind all others.** -/
theorem Replaced.append_edit {start : Nat} {front front' : List Char} {es : List ByteEdit}
    (h : Replaced start front es front') {e : ByteEdit} {old back : List Char}
    (hlo : start + byteLength front = e.lo) (hhi : e.lo + byteLength old = e.hi) :
    Replaced start (front ++ old ++ back) (es ++ [e]) (front' ++ e.content ++ back) := by
  induction h with
  | none start cs => exact .edit hlo hhi (.none _ back)
  | @edit start e' es kept old' rest out hlo' hhi' tail ih =>
    have hrest : e'.hi + byteLength rest = e.lo := by
      rw [byteLength_append, byteLength_append] at hlo
      omega
    have hall : Replaced start (kept ++ old' ++ (rest ++ old ++ back)) (e' :: (es ++ [e]))
        (kept ++ e'.content ++ (out ++ e.content ++ back)) := .edit hlo' hhi' (ih hrest)
    simpa only [List.append_assoc, List.cons_append] using hall

end Text
end Localizer
