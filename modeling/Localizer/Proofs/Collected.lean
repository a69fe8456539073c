import Localizer.Bundle.Manifest
import Localizer.Proofs.Tables
/-!
# Collected — a manifest knows the last file of each path

Files are added to a manifest one after another.  It keeps the last one for each path, in the order of the paths
(`Manifest.mem_collected`), so neither the order of the others nor what was replaced can be seen in it or in its header
(`Manifest.collected_eq_iff`).
-/
namespace Localizer
namespace Manifest

/-- **A file after which none with its path comes.** -/
def LastIn (fs : List BundleFile) (f : BundleFile) : Prop :=
  ∃ before after, fs = before ++ f :: after ∧ ∀ g ∈ after, g.path ≠ f.path

/-- **The manifest that files give** when they are added in this order. -/
def collected (fs : List BundleFile) : Manifest := fs.foldl add .empty

theorem collected_concat (fs : List BundleFile) (f : BundleFile) : collected (fs ++ [f]) = (collected fs).add f := by
  rw [collected, List.foldl_append]
  rfl

theorem lastIn_concat {fs : List BundleFile} {f g : BundleFile} :
    LastIn (fs ++ [f]) g ↔ g = f ∨ f.path ≠ g.path ∧ LastIn fs g := by
  constructor
  · rintro ⟨before, after, heq, hafter⟩
    rcases List.eq_nil_or_concat after with rfl | ⟨more, last, rfl⟩
    · exact .inl (List.cons.inj (List.append_inj' heq rfl).2).1.symm
    · rw [List.concat_eq_append, ← List.cons_append, ← List.append_assoc] at heq
      obtain ⟨rfl, hlast⟩ := List.append_inj' heq rfl
      obtain rfl : f = last := (List.cons.inj hlast).1
      refine .inr ⟨hafter f (by simp), before, more, rfl, fun x hx => hafter x ?_⟩
      rw [List.concat_eq_append]
      exact List.mem_append_left _ hx
  · rintro (rfl | ⟨hne, before, after, rfl, hafter⟩)
    · exact ⟨fs, [], rfl, fun _ h => by cases h⟩
    · refine ⟨before, after ++ [f], by simp, fun x hx => ?_⟩
      rcases List.mem_append.1 hx with hx | hx
      · exact hafter x hx
      · rwa [List.mem_singleton.1 hx]

theorem sorted_collected (fs : List BundleFile) : Table.Sorted (collected fs) := by
  induction fs using List.reverseRecOn with
  | nil => exact .nil
  | append_singleton fs f ih =>
    rw [collected_concat]
    exact ih.insert f.path f.bundle

/-- **A path is looked up where it was given last.** -/
theorem find?_collected (path : String) (bundle : Bundle) (fs : List BundleFile) :
    Table.find? path (collected fs) = some bundle ↔ LastIn fs ⟨bundle, path⟩ := by
  induction fs using List.reverseRecOn with
  | nil => exact ⟨fun h => (by cases h), fun ⟨before, after, h, _⟩ => (by simp at h)⟩
  | append_singleton fs f ih =>
    rw [collected_concat, add, Table.find?_insert, lastIn_concat, ← ih]
    by_cases hpath : f.path = path
    · subst hpath
      rw [if_pos rfl]
      constructor
      · intro h
        cases h
        exact .inl rfl
      · rintro (hf | ⟨hne, -⟩)
        · rw [← hf]
        · exact absurd rfl hne
    · rw [if_neg hpath]
      constructor
      · exact fun h => .inr ⟨hpath, h⟩
      · rintro (rfl | ⟨-, h⟩)
        · exact absurd rfl hpath
        · exact h

theorem mem_collected {path : String} {bundle : Bundle} {fs : List BundleFile} :
    (path, bundle) ∈ collected fs ↔ LastIn fs ⟨bundle, path⟩ := by
  rw [← find?_collected]
  exact (sorted_collected fs).mem_iff

/-- **A manifest and its header depend on the last files only.**  A manifest lists the last file of each path in the
order of the paths.  Two runs of additions end with the same manifest and header exactly if every path has the same last
file in both, whatever else was added in between and in whichever order. -/
theorem collected_eq_iff (fs gs : List BundleFile) (id outDir : String) :
    Table.Sorted (collected fs) ∧ (∀ path bundle, (path, bundle) ∈ collected fs ↔ LastIn fs ⟨bundle, path⟩) ∧
      ((collected fs, (collected fs).header id outDir) = (collected gs, (collected gs).header id outDir) ↔
        ∀ f, LastIn fs f ↔ LastIn gs f) := by
  refine ⟨sorted_collected fs, fun _ _ => mem_collected, fun heq f => ?_, fun hlast => ?_⟩
  · have hsame : collected fs = collected gs := congrArg Prod.fst heq
    rw [← mem_collected, ← mem_collected, hsame]
  · have hsame : collected fs = collected gs := by
      refine (sorted_collected fs).ext (sorted_collected gs) fun path => Option.ext fun bundle => ?_
      rw [find?_collected, find?_collected, hlast]
    rw [hsame]

end Manifest
end Localizer
