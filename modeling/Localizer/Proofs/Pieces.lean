import Localizer.Text.Basic
/-!
# Pieces — cutting at a separator and putting together again

A text is its pieces with separators between them (`Text.joined_pieces`), and pieces that hold no separator are found
again (`Text.pieces_joined`).
-/
namespace Localizer
namespace Text

theorem pieces_ne_nil (separator : Char) (cs : List Char) : pieces separator cs ≠ [] := by
  cases cs with
  | nil => exact List.cons_ne_nil _ _
  | cons c cs =>
    rw [pieces]
    split
    · exact List.cons_ne_nil _ _
    · cases pieces separator cs <;> exact List.cons_ne_nil _ _

theorem pieces_separator (separator : Char) (cs : List Char) :
    pieces separator (separator :: cs) = [] :: pieces separator cs := by
  rw [pieces, if_pos BEq.rfl]

/-- **What holds no separator stands at the front of the first piece.** -/
theorem pieces_append {separator : Char} {front : List Char} (hfront : ∀ c ∈ front, c ≠ separator) {cs p : List Char}
    {ps : List (List Char)} (hcs : pieces separator cs = p :: ps) :
    pieces separator (front ++ cs) = (front ++ p) :: ps := by
  induction front with
  | nil => exact hcs
  | cons c front ih =>
    have hc : c ≠ separator := hfront c (List.mem_cons_self ..)
    rw [List.cons_append, pieces, if_neg (by simpa using hc), ih fun d hd => hfront d (List.mem_cons_of_mem _ hd)]
    rfl

/-- **A text without a separator is one piece.** -/
theorem pieces_plain {separator : Char} {cs : List Char} (h : ∀ c ∈ cs, c ≠ separator) : pieces separator cs = [cs] := by
  have hone := pieces_append h (show pieces separator [] = [] :: [] from rfl)
  rwa [List.append_nil] at hone

/-- **A separator parts the pieces before it from those behind it.** -/
theorem pieces_part (separator : Char) (front cs : List Char) :
    pieces separator (front ++ separator :: cs) = pieces separator front ++ pieces separator cs := by
  induction front with
  | nil => exact pieces_separator separator cs
  | cons c front ih =>
    rw [List.cons_append, pieces, pieces, ih]
    split
    · rfl
    · obtain ⟨p, ps, hp⟩ := List.exists_cons_of_ne_nil (pieces_ne_nil separator front)
      rw [hp]
      rfl

theorem not_mem_piece {separator : Char} {cs p : List Char} (h : p ∈ pieces separator cs) : separator ∉ p := by
  induction cs generalizing p with
  | nil =>
    rw [List.mem_singleton.1 h]
    exact List.not_mem_nil
  | cons c cs ih =>
    rw [pieces] at h
    split at h
    · rcases List.mem_cons.1 h with rfl | h
      · exact List.not_mem_nil
      · exact ih h
    · rename_i hc
      obtain ⟨q, ps, hq⟩ := List.exists_cons_of_ne_nil (pieces_ne_nil separator cs)
      rw [hq] at h ih
      rcases List.mem_cons.1 h with rfl | h
      · intro hmem
        rcases List.mem_cons.1 hmem with rfl | hmem
        · exact hc BEq.rfl
        · exact ih (List.mem_cons_self ..) hmem
      · exact ih (List.mem_cons_of_mem _ h)

theorem joined_cons {separator : List Char} {ps : List (List Char)} (h : ps ≠ []) (p : List Char) :
    joined separator (p :: ps) = p ++ separator ++ joined separator ps := by
  cases ps with
  | nil => exact absurd rfl h
  | cons q ps => rfl

theorem joined_append {separator : List Char} {ps qs : List (List Char)} (hps : ps ≠ []) (hqs : qs ≠ []) :
    joined separator (ps ++ qs) = joined separator ps ++ separator ++ joined separator qs := by
  induction ps with
  | nil => exact absurd rfl hps
  | cons p ps ih =>
    rw [List.cons_append]
    by_cases h : ps = []
    · subst h
      exact joined_cons hqs p
    · rw [joined_cons (by simp [h]), joined_cons h, ih h]
      simp only [List.append_assoc]

theorem joined_pieces (separator : Char) (cs : List Char) : joined [separator] (pieces separator cs) = cs := by
  induction cs with
  | nil => rfl
  | cons c cs ih =>
    rw [pieces]
    split
    · rename_i hc
      rw [joined_cons (pieces_ne_nil separator cs), ih, eq_of_beq hc]
      rfl
    · obtain ⟨p, ps, hp⟩ := List.exists_cons_of_ne_nil (pieces_ne_nil separator cs)
      rw [hp] at ih ⊢
      cases ps with
      | nil => exact congrArg (c :: ·) ih
      | cons q ps => exact congrArg (c :: ·) ih

theorem pieces_joined {separator : Char} : ∀ {ps : List (List Char)}, ps ≠ [] →
    (∀ p ∈ ps, ∀ c ∈ p, c ≠ separator) → pieces separator (joined [separator] ps) = ps
  | [], h, _ => absurd rfl h
  | [p], _, hps => pieces_plain (hps p (by simp))
  | p :: q :: ps, _, hps => by
    rw [joined_cons (List.cons_ne_nil q ps), List.append_assoc, List.singleton_append, pieces_part,
      pieces_plain (hps p (by simp)),
      pieces_joined (List.cons_ne_nil q ps) fun r hr => hps r (List.mem_cons_of_mem _ hr)]
    rfl

end Text
end Localizer
