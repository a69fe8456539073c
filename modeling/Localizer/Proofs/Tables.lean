import Mathlib.Data.List.Induction
import Localizer.Table
/-!
# Tables — what a table knows about a name

A sorted table answers with the last value that a name was given (`Table.find?_sort`).  Its names stand in the order of
their bytes (`Table.sorted_sort`), so it is known by its answers (`Table.Sorted.ext`).
-/
namespace Localizer

namespace Text

theorem charsBefore_irrefl : ∀ cs : List Char, charsBefore cs cs = false
  | [] => rfl
  | c :: cs => by simp [charsBefore, charsBefore_irrefl cs]

theorem charsBefore_trans : ∀ {as bs cs : List Char}, charsBefore as bs = true → charsBefore bs cs = true →
    charsBefore as cs = true
  | _, [], [], _, h => by simp [charsBefore] at h
  | [], _, _ :: _, _, _ => rfl
  | _ :: _, [], _ :: _, h, _ => by simp [charsBefore] at h
  | _, _ :: _, [], _, h => by simp [charsBefore] at h
  | a :: as, b :: bs, c :: cs, h, h' => by
    simp only [charsBefore, Bool.or_eq_true, decide_eq_true_eq, Bool.and_eq_true, beq_iff_eq] at h h' ⊢
    rcases h with h | ⟨h, htail⟩ <;> rcases h' with h' | ⟨h', htail'⟩
    · exact .inl (by omega)
    · exact .inl (by omega)
    · exact .inl (by omega)
    · exact .inr ⟨by omega, charsBefore_trans htail htail'⟩

theorem charsBefore_total : ∀ {as bs : List Char}, charsBefore as bs = false → as ≠ bs → charsBefore bs as = true
  | [], [], _, h => absurd rfl h
  | [], _ :: _, h, _ => by simp [charsBefore] at h
  | _ :: _, [], _, _ => rfl
  | a :: as, b :: bs, h, hne => by
    simp only [charsBefore, Bool.or_eq_false_iff, decide_eq_false_iff_not, Bool.and_eq_false_imp, beq_iff_eq,
      Bool.or_eq_true, decide_eq_true_eq, Bool.and_eq_true] at h ⊢
    by_cases hab : a = b
    · subst hab
      exact .inr ⟨rfl, charsBefore_total (h.2 rfl) fun htail => hne (by rw [htail])⟩
    · have hnat : a.toNat ≠ b.toNat := fun heq => hab (Char.toNat_inj.1 heq)
      exact .inl (by omega)

theorem textBefore_irrefl (a : String) : textBefore a a = false := charsBefore_irrefl a.toList

theorem textBefore_trans {a b c : String} (h : textBefore a b = true) (h' : textBefore b c = true) :
    textBefore a c = true := charsBefore_trans h h'

theorem textBefore_total {a b : String} (h : textBefore a b = false) (hne : a ≠ b) : textBefore b a = true :=
  charsBefore_total h fun heq => hne (String.toList_inj.1 heq)

theorem textBefore_asymm {a b : String} (h : textBefore a b = true) : textBefore b a = false := by
  refine Bool.eq_false_iff.2 fun h' => ?_
  have hself := textBefore_trans h h'
  rw [textBefore_irrefl] at hself
  cases hself

end Text

namespace Table

variable {α : Type}

theorem find?_insert (x name : String) (value : α) (ps : List (String × α)) :
    find? x (insert name value ps) = if name = x then some value else find? x ps := by
  induction ps with
  | nil => simp [insert, find?]
  | cons p ps ih =>
    unfold insert
    split
    · rename_i hp
      have hp := eq_of_beq hp
      simp only [find?, beq_iff_eq, hp]
      split <;> rfl
    split
    · simp only [find?, beq_iff_eq]
    · rename_i hp _
      simp only [find?, beq_iff_eq, ih] at hp ⊢
      split
      · rename_i hx
        rw [if_neg fun hname => hp (hx.trans hname.symm)]
      · rfl

/-- **The last value of a name counts.** -/
theorem find?_sort (x : String) (pairs : List (String × α)) : find? x (sort pairs) = find? x pairs.reverse := by
  unfold sort
  induction pairs using List.reverseRecOn with
  | nil => rfl
  | append_singleton ps p ih =>
    rw [List.foldl_append, List.reverse_append, List.reverse_singleton, List.singleton_append]
    simp only [List.foldl_cons, List.foldl_nil, find?_insert, find?, beq_iff_eq, ih]

/-- **Where the last value of a name stands.** -/
theorem find?_reverse {x : String} {pairs : List (String × α)} (h : ∃ p ∈ pairs, p.1 = x) :
    ∃ (j : Nat) (value : α), pairs[j]? = some (x, value) ∧ find? x pairs.reverse = some value ∧
      ∀ k p, j < k → pairs[k]? = some p → p.1 ≠ x := by
  induction pairs using List.reverseRecOn with
  | nil => simp at h
  | append_singleton ps p ih =>
    rw [List.reverse_append, List.reverse_singleton, List.singleton_append, find?]
    by_cases hp : p.1 = x
    · refine ⟨ps.length, p.2, by simp [← hp], by simp [hp], fun k q hk hq => ?_⟩
      have := (List.getElem?_eq_some_iff.1 hq).1
      rw [List.length_append, List.length_singleton] at this
      omega
    · obtain ⟨j, value, hj, hfind, hlast⟩ := ih (by
        obtain ⟨q, hq, hx⟩ := h
        rcases List.mem_append.1 hq with hq | hq
        · exact ⟨q, hq, hx⟩
        · exact absurd (List.mem_singleton.1 hq ▸ hx) hp)
      refine ⟨j, value, ?_, by simpa [hp] using hfind, fun k q hk hq => ?_⟩
      · rw [List.getElem?_append_left (List.getElem?_eq_some_iff.1 hj).1, hj]
      · rcases Nat.lt_or_ge k ps.length with hlt | hge
        · exact hlast k q hk (by rwa [List.getElem?_append_left hlt] at hq)
        · rw [List.getElem?_append_right hge] at hq
          obtain rfl := List.mem_singleton.1 (List.mem_of_getElem? hq)
          exact hp

/-! ## Tables in order -/

/-- **Each name once, in the order of their bytes.** -/
def Sorted (ps : List (String × α)) : Prop := ps.Pairwise fun p q => Text.textBefore p.1 q.1 = true

theorem mem_insert {name : String} {value : α} {ps : List (String × α)} {q : String × α}
    (h : q ∈ insert name value ps) : q = (name, value) ∨ q ∈ ps := by
  induction ps with
  | nil => exact .inl (List.mem_singleton.1 h)
  | cons p ps ih =>
    unfold insert at h
    split at h
    · exact (List.mem_cons.1 h).imp id fun hq => List.mem_cons_of_mem _ hq
    split at h
    · exact List.mem_cons.1 h
    · rcases List.mem_cons.1 h with rfl | h
      · exact .inr (List.mem_cons_self ..)
      · exact (ih h).imp id fun hq => List.mem_cons_of_mem _ hq

theorem Sorted.insert {ps : List (String × α)} (h : Sorted ps) (name : String) (value : α) :
    Sorted (insert name value ps) := by
  induction ps with
  | nil => exact List.pairwise_singleton ..
  | cons p ps ih =>
    obtain ⟨hp, hps⟩ := List.pairwise_cons.1 h
    unfold Table.insert
    split
    · rename_i hname
      rw [← eq_of_beq hname]
      exact List.pairwise_cons.2 ⟨hp, hps⟩
    split
    · rename_i hbefore
      refine List.pairwise_cons.2 ⟨fun q hq => ?_, h⟩
      rcases List.mem_cons.1 hq with rfl | hq
      · exact hbefore
      · exact Text.textBefore_trans hbefore (hp q hq)
    · rename_i hname hbefore
      refine List.pairwise_cons.2 ⟨fun q hq => ?_, ih hps⟩
      rcases mem_insert hq with rfl | hq
      · exact Text.textBefore_total (Bool.eq_false_iff.2 hbefore) fun heq => hname (beq_iff_eq.2 heq.symm)
      · exact hp q hq

theorem sorted_sort (ps : List (String × α)) : Sorted (sort ps) := by
  unfold sort
  induction ps using List.reverseRecOn with
  | nil => exact .nil
  | append_singleton ps p ih =>
    rw [List.foldl_append]
    exact Sorted.insert ih p.1 p.2

theorem insert_last {ps : List (String × α)} {p : String × α}
    (h : ∀ q ∈ ps, Text.textBefore q.1 p.1 = true) : insert p.1 p.2 ps = ps ++ [p] := by
  induction ps with
  | nil => rfl
  | cons q ps ih =>
    have hq := h q (List.mem_cons_self ..)
    have hne : ¬ (q.1 == p.1) = true := by
      intro heq
      rw [eq_of_beq heq, Text.textBefore_irrefl] at hq
      cases hq
    rw [insert, if_neg hne, if_neg (by rw [Text.textBefore_asymm hq]; decide),
      ih fun x hx => h x (List.mem_cons_of_mem _ hx), List.cons_append]

/-- **Sorting changes nothing about a table in order.** -/
theorem Sorted.sort_eq {ps : List (String × α)} (h : Sorted ps) : sort ps = ps := by
  unfold sort
  induction ps using List.reverseRecOn with
  | nil => rfl
  | append_singleton ps p ih =>
    obtain ⟨hps, -, hlast⟩ := List.pairwise_append.1 h
    rw [List.foldl_append, ih hps]
    exact insert_last fun q hq => hlast q hq p (by simp)

theorem find?_eq_none {x : String} {ps : List (String × α)} (h : ∀ p ∈ ps, p.1 ≠ x) : find? x ps = none := by
  induction ps with
  | nil => rfl
  | cons p ps ih =>
    rw [find?, if_neg (by simpa using h p (List.mem_cons_self ..))]
    exact ih fun q hq => h q (List.mem_cons_of_mem _ hq)

/-- A name in front of a sorted table's first one is not in it. -/
theorem Sorted.find?_front {p : String × α} {ps : List (String × α)} (h : Sorted (p :: ps)) {x : String}
    (hx : Text.textBefore x p.1 = true) : find? x (p :: ps) = none := by
  refine find?_eq_none fun q hq heq => ?_
  have hbefore : Text.textBefore x q.1 = true := by
    rcases List.mem_cons.1 hq with rfl | hq
    · exact hx
    · exact Text.textBefore_trans hx ((List.pairwise_cons.1 h).1 q hq)
  rw [heq, Text.textBefore_irrefl] at hbefore
  cases hbefore

/-- **A table in order holds exactly what it answers.** -/
theorem Sorted.mem_iff {x : String} {value : α} : ∀ {ps : List (String × α)}, Sorted ps →
    ((x, value) ∈ ps ↔ find? x ps = some value)
  | [], _ => by simp [find?]
  | p :: ps, h => by
    obtain ⟨hbefore, hps⟩ := List.pairwise_cons.1 h
    rw [List.mem_cons, Sorted.mem_iff hps, find?]
    by_cases hp : p.1 = x
    · have hnone : find? x ps = none := find?_eq_none fun q hq hx => by
        have hself := hbefore q hq
        rw [hp, hx, Text.textBefore_irrefl] at hself
        cases hself
      rw [if_pos (by simpa using hp), hnone, Option.some.injEq]
      constructor
      · rintro (rfl | hno)
        · rfl
        · cases hno
      · rintro rfl
        exact .inl (by rw [← hp])
    · rw [if_neg (by simpa using hp)]
      exact or_iff_right fun heq => hp (by rw [← heq])

/-- **A table in order is known by its answers.** -/
theorem Sorted.ext : ∀ {ps qs : List (String × α)}, Sorted ps → Sorted qs → (∀ x, find? x ps = find? x qs) → ps = qs
  | [], [], _, _, _ => rfl
  | [], q :: qs, _, _, hfind => by simpa [find?] using hfind q.1
  | p :: ps, [], _, _, hfind => by simpa [find?] using hfind p.1
  | p :: ps, q :: qs, hp, hq, hfind => by
    have hself : ∀ (r : String × α) (rs : List (String × α)), find? r.1 (r :: rs) = some r.2 := by simp [find?]
    have hname : p.1 = q.1 := by
      by_contra hne
      by_cases hbefore : Text.textBefore p.1 q.1 = true
      · have hnone := hfind p.1
        rw [hself, hq.find?_front hbefore] at hnone
        cases hnone
      · have hnone := hfind q.1
        rw [hself, hp.find?_front (Text.textBefore_total (Bool.eq_false_iff.2 hbefore) hne)] at hnone
        cases hnone
    have hvalue : p.2 = q.2 := by
      have h := hfind p.1
      rw [hself, hname, hself] at h
      exact Option.some.inj h
    have hlater : ∀ {r : String × α} {rs : List (String × α)}, Sorted (r :: rs) → find? r.1 rs = none := by
      intro r rs h
      refine find?_eq_none fun s hs heq => ?_
      have hbefore := (List.pairwise_cons.1 h).1 s hs
      rw [heq, Text.textBefore_irrefl] at hbefore
      cases hbefore
    have htail : ps = qs := by
      refine Sorted.ext (List.pairwise_cons.1 hp).2 (List.pairwise_cons.1 hq).2 fun x => ?_
      by_cases hx : p.1 = x
      · rw [← hx, hlater hp, hname, hlater hq]
      · have h := hfind x
        rwa [find?, find?, if_neg (by simpa using hx), if_neg (by simpa using hname ▸ hx)] at h
    rw [htail, Prod.ext hname hvalue]

theorem find?_of_mem {x : String} {value : α} {ps : List (String × α)} (h : (x, value) ∈ ps)
    (hsame : ∀ p ∈ ps, p.1 = x → p.2 = value) : find? x ps = some value := by
  induction ps with
  | nil => cases h
  | cons p ps ih =>
    rw [find?]
    by_cases hp : p.1 = x
    · rw [if_pos (by simpa using hp), hsame p (List.mem_cons_self ..) hp]
    · rw [if_neg (by simpa using hp)]
      refine ih ((List.mem_cons.1 h).resolve_left fun heq => hp (by rw [← heq])) fun q hq => ?_
      exact hsame q (List.mem_cons_of_mem _ hq)

/-- **Pairs may be sorted from any order** if those with one name have one value. -/
theorem sort_perm {ps qs : List (String × α)} (hperm : ps.Perm qs)
    (hagree : ∀ p ∈ ps, ∀ q ∈ ps, p.1 = q.1 → p.2 = q.2) : sort ps = sort qs := by
  refine Sorted.ext (sorted_sort ps) (sorted_sort qs) fun x => ?_
  rw [find?_sort, find?_sort]
  by_cases hx : ∃ p ∈ ps, p.1 = x
  · obtain ⟨p, hp, rfl⟩ := hx
    rw [find?_of_mem (List.mem_reverse.2 hp) fun q hq => hagree q (List.mem_reverse.1 hq) p hp,
      find?_of_mem (List.mem_reverse.2 (hperm.mem_iff.1 hp)) fun q hq =>
        hagree q (hperm.mem_iff.2 (List.mem_reverse.1 hq)) p hp]
  · have hnone : ∀ q ∈ ps, q.1 ≠ x := fun q hq heq => hx ⟨q, hq, heq⟩
    rw [find?_eq_none fun q hq => hnone q (List.mem_reverse.1 hq),
      find?_eq_none fun q hq => hnone q (hperm.mem_iff.2 (List.mem_reverse.1 hq))]

end Table
end Localizer
