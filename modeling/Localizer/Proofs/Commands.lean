import Localizer.Commands.Context
/-!
# Commands — commands on a tree that is passed along

`FileTree.doing` does something on a tree and gives the tree after it.  Loading the settings of a command changes nothing
(`Command.doing_loadContext`).
-/
namespace Localizer

namespace FileTree

/-- **Do something on a tree**: what it gives, and the tree after it. -/
def doing {α : Type} (tree : FileTree) (action : StateM FileTree α) : α × FileTree := action tree

/-- **The text at a path.** -/
def text (tree : FileTree) (path : String) : Except FileError (List Char) := tree.read path >>= Disk.textOf

variable {α β : Type} {tree next : FileTree}

theorem doing_pure (tree : FileTree) (a : α) : tree.doing (pure a) = (a, tree) := rfl

theorem doing_bind {x : StateM FileTree α} {a : α} (h : tree.doing x = (a, next)) (f : α → StateM FileTree β) :
    tree.doing (x >>= f) = next.doing (f a) := by
  change (tree.doing x).2.doing (f (tree.doing x).1) = _
  rw [h]

theorem doing_read (tree : FileTree) (path : String) : tree.doing (Disk.read path) = (tree.read path, tree) := rfl

theorem doing_readText (tree : FileTree) (path : String) : tree.doing (Disk.readText path) = (tree.text path, tree) := by
  rw [Disk.readText, doing_bind (doing_read tree path), text]
  cases tree.read path <;> rfl

theorem doing_change {f : FileTree → Except FileError FileTree} (h : f tree = .ok next) :
    tree.doing (change f) = (.ok (), next) := by
  simp only [doing, change, h]

theorem doing_change_error {f : FileTree → Except FileError FileTree} {e : FileError} (h : f tree = .error e) :
    tree.doing (change f) = (.error e, tree) := by
  simp only [doing, change, h]

end FileTree

namespace Command

open FileTree (doing_readText)

variable {α β : Type} {tree next : FileTree} {notes notes' : String}

theorem doing_bind {x : Command (StateM FileTree) α} {a : α} (h : tree.doing (x.run.run notes) = ((.ok a, notes'), next))
    (f : α → Command (StateM FileTree) β) :
    tree.doing ((x >>= f).run.run notes) = next.doing ((f a).run.run notes') := by
  change tree.doing (x.run.run notes >>= fun p => (ExceptT.bindCont f p.1).run p.2) = _
  rw [FileTree.doing_bind h]
  rfl

theorem doing_ask {action : StateM FileTree α} {a : α} (h : tree.doing action = (a, next)) (notes : String) :
    tree.doing ((ask action).run.run notes) = ((.ok a, notes), next) := by
  change ((Except.ok (tree.doing action).1, notes), (tree.doing action).2) = _
  rw [h]

theorem doing_askFor {action : StateM FileTree (Except Failure α)} {a : α} (h : tree.doing action = (.ok a, next))
    (notes : String) : tree.doing ((askFor action).run.run notes) = ((.ok a, notes), next) := by
  rw [askFor, doing_bind (doing_ask h notes)]
  rfl

theorem doing_note (tree : FileTree) (text notes : String) :
    tree.doing ((note text).run.run notes) = ((.ok (), notes ++ text), tree) := rfl

theorem doing_askFor_error {action : StateM FileTree (Except Failure α)} {failure : Failure}
    (h : tree.doing action = (.error failure, next)) (f : α → Command (StateM FileTree) β) (notes : String) :
    tree.doing ((askFor action >>= f).run.run notes) = ((.error failure, notes), next) := by
  have hask : tree.doing ((askFor action).run.run notes) = ((.error failure, notes), next) := by
    rw [askFor, doing_bind (doing_ask h notes)]
    rfl
  change tree.doing ((askFor action).run.run notes >>= fun p => (ExceptT.bindCont f p.1).run p.2) = _
  rw [FileTree.doing_bind hask]
  rfl

/-! ## Settings -/

theorem doing_present (tree : FileTree) (path : String) :
    tree.doing (Disk.present path) = ((tree.kind? path).isSome, tree) := rfl

theorem doing_findConfigWithin (tree : FileTree) : ∀ (levels : Nat) (folder : String),
    (tree.doing (findConfigWithin levels folder)).2 = tree
  | 0, _ => rfl
  | levels + 1, folder => by
    rw [findConfigWithin, FileTree.doing_bind (doing_present tree _)]
    split
    · rfl
    · rw [FileTree.doing_bind (doing_present tree _)]
      split
      · rfl
      · split
        · exact doing_findConfigWithin tree levels _
        · rfl

theorem doing_loadConfig (tree : FileTree) (folder : String) : (tree.doing (loadConfig folder)).2 = tree := by
  cases hfind : tree.doing (findConfig folder) with
  | mk found next =>
    obtain rfl : next = tree := by
      have htree := doing_findConfigWithin tree ((Path.segments folder).length + 1) folder
      rwa [← findConfig, hfind] at htree
    rw [loadConfig, FileTree.doing_bind hfind]
    cases found with
    | none => rfl
    | some path =>
      simp only
      rw [FileTree.doing_bind (doing_readText next path)]
      cases next.text path with
      | error e => rfl
      | ok text =>
        simp only
        split <;> rfl

theorem doing_rootFound {context c : Context} {folder : String} {checked : Command (StateM FileTree) Context}
    (h : (tree.doing (checked.run.run notes)).1.1 = .ok c)
    (hchecked : checked = if tree.kind? folder != some .folder then do throw (Failure.rootMissing folder); pure context
      else pure context) (hroot : context.root = folder) :
    (∃ notes', tree.doing (checked.run.run notes) = ((.ok c, notes'), tree)) ∧ tree.kind? c.root = some .folder := by
  subst hchecked
  split at h
  · cases h
  · rename_i hkind
    obtain rfl : context = c := Except.ok.inj h
    rw [if_neg hkind, hroot]
    exact ⟨⟨notes, rfl⟩, by simpa using hkind⟩

/-- **Loading settings changes nothing**, and finds a folder. -/
theorem doing_loadContext {working : String} {root : Option String} {verbose : Bool} {c : Context}
    (h : (tree.doing ((loadContext working root verbose).run.run notes)).1.1 = .ok c) :
    (∃ notes', tree.doing ((loadContext working root verbose).run.run notes) = ((.ok c, notes'), tree)) ∧
      tree.kind? c.root = some .folder := by
  cases hload : tree.doing (loadConfig working) with
  | mk loaded next =>
    obtain rfl : next = tree := by
      have htree := doing_loadConfig tree working
      rwa [hload] at htree
    cases loaded with
    | error failure =>
      rw [loadContext, doing_askFor_error hload] at h
      cases h
    | ok loaded =>
      rw [loadContext, doing_bind (doing_askFor hload notes)] at h ⊢
      dsimp only at h ⊢
      have hask : ∀ path, next.doing (Disk.kind? path) = (next.kind? path, next) := fun _ => rfl
      by_cases hnote : (verbose && !loaded.fromFile) = true
      · rw [if_pos hnote, doing_bind (doing_note ..), doing_bind (doing_ask (hask _) _)] at h ⊢
        exact doing_rootFound h rfl rfl
      · rw [if_neg hnote, doing_bind (doing_ask (hask _) _)] at h ⊢
        exact doing_rootFound h rfl rfl

end Command
end Localizer
