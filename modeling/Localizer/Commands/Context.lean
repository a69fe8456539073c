import Localizer.Commands.Config
import Localizer.Files.Scan
import Localizer.Report.Summary
/-!
# Context — what the commands on scripts share

A command may fail, and it may write notes beside its report.
-/
namespace Localizer

/-- **A command on a disk**: it may fail, and keeps the notes that it writes. -/
abbrev Command (m : Type → Type) := ExceptT Failure (StateT String m)

namespace Command

variable {m : Type → Type} [Monad m] {α : Type}

def ask (action : m α) : Command m α := ExceptT.lift (StateT.lift action)

def askFor (action : m (Except Failure α)) : Command m α := do
  match ← ask action with
  | .ok a => return a
  | .error failure => throw failure

def note (text : String) : Command m Unit := modify (· ++ text)

end Command

structure Context where
  config : Config
  working : String
  /-- where the paths of the settings start -/
  base : String
  root : String
  deriving DecidableEq, Repr, Inhabited

def Context.resolve (c : Context) (given : Option String) (configured : String) : String :=
  match given with
  | some path => Path.join c.working path
  | none => Path.join c.base configured

section

variable {m : Type → Type} [Monad m] [Disk m]

def loadContext (working : String) (root : Option String) (verbose : Bool) : Command m Context := do
  let loaded ← Command.askFor (loadConfig working)
  if verbose && !loaded.fromFile then
    Command.note "Note: No .nlsrc.json found, using default configuration\n"
  let root := match root with
    | some path => Path.join working path
    | none => Path.join loaded.base loaded.config.root
  if (← Command.ask (Disk.kind? root)) != some .folder then throw (.rootMissing root)
  return ⟨loaded.config, working, loaded.base, root⟩

end

end Localizer
