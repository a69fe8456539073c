import Mathlib.Order.Bounds.Basic
import Localizer.Proofs.InPlace
import Localizer.Proofs.Offsets
/-!
# Columns — the byte offset of a column

A text is cut at a column by bytes, so the offset of the column has to lie between two characters.  Of these offsets it
is the last one before which no more units stand than the column counts (`Text.isGreatest_byteOffset`): inside a
character it is the start of the character, past the end it is the end, and everywhere else the column is met exactly.
-/
namespace Localizer
namespace Text

theorem unitLength_takeUnits_le (cs : List Char) (n : Nat) : unitLength (takeUnits cs n) ≤ n := by
  fun_induction takeUnits cs n with
  | case1 => exact Nat.zero_le _
  | case2 c cs n hc ih =>
    rw [unitLength]
    omega
  | case3 => exact Nat.zero_le _

theorem byteOffset_append (front back : List Char) : byteOffset (front ++ back) (unitLength front) = byteLength front := by
  rw [byteOffset_eq, takeUnits_append_left]

theorem boundary_byteOffset (cs : List Char) (n : Nat) : Boundary cs (byteOffset cs n) :=
  ⟨takeUnits cs n, dropUnits cs n, (takeUnits_append_dropUnits cs n).symm, (byteOffset_eq cs n).symm⟩

/-- **A front of a text ends at or before every column that its units reach.** -/
theorem byteLength_le_byteOffset {front back : List Char} {n : Nat} (h : unitLength front ≤ n) :
    byteLength front ≤ byteOffset (front ++ back) n := by
  obtain ⟨more, hmore⟩ := takeUnits_of_le (front ++ back) h
  rw [takeUnits_append_left] at hmore
  rw [byteOffset_eq, hmore, byteLength_append]
  exact Nat.le_add_right ..

theorem isGreatest_byteOffset (cs : List Char) (n : Nat) :
    IsGreatest {b | Boundary cs b ∧ unitLength (takeBytes cs b) ≤ n} (byteOffset cs n) := by
  refine ⟨⟨boundary_byteOffset cs n, ?_⟩, ?_⟩
  · rw [takeBytes_byteOffset]
    exact unitLength_takeUnits_le cs n
  · rintro b ⟨⟨front, back, rfl, rfl⟩, hunits⟩
    rw [takeBytes_append] at hunits
    exact byteLength_le_byteOffset hunits

/-- **The offset of a column is the last one between two characters that the column reaches.**  So a later column has no
earlier offset, a column past the end has the end, and the units before an offset between two characters are a column
that has this offset. -/
theorem byteOffset_last (cs : List Char) :
    (∀ n, IsGreatest {b | Boundary cs b ∧ unitLength (takeBytes cs b) ≤ n} (byteOffset cs n)) ∧
    Monotone (byteOffset cs) ∧
    (∀ n, unitLength cs ≤ n → byteOffset cs n = byteLength cs) ∧
    ∀ b, Boundary cs b → byteOffset cs (unitLength (takeBytes cs b)) = b := by
  refine ⟨isGreatest_byteOffset cs, fun m n hmn => ?_, fun n hn => ?_, ?_⟩
  · obtain ⟨⟨hboundary, hunits⟩, -⟩ := isGreatest_byteOffset cs m
    exact (isGreatest_byteOffset cs n).2 ⟨hboundary, hunits.trans hmn⟩
  · have hend : byteLength cs ≤ byteOffset (cs ++ []) n := byteLength_le_byteOffset hn
    rw [List.append_nil] at hend
    exact (boundary_byteOffset cs n).le.antisymm hend
  · rintro b ⟨front, back, rfl, rfl⟩
    rw [takeBytes_append, byteOffset_append]

/-- The column between the two units of a character, and one past the end. -/
theorem byteOffset_last_pair :
    let cs := ['é', '😀', 'b']
    IsGreatest {b | Boundary cs b ∧ unitLength (takeBytes cs b) ≤ 2} 2 ∧
      unitLength cs ≤ 7 ∧ byteOffset cs 7 = 7 ∧
      Boundary cs 6 ∧ byteOffset cs (unitLength (takeBytes cs 6)) = 6 := by
  intro cs
  obtain ⟨hlast, -, hend, hback⟩ := byteOffset_last cs
  have hunits : unitLength cs ≤ 7 := by decide
  have hboundary : Boundary cs 6 := ⟨['é', '😀'], ['b'], rfl, by decide⟩
  exact ⟨hlast 2, hunits, hend 7 hunits, hboundary, hback 6 hboundary⟩

end Text
end Localizer
