import Localizer.Commands.Process
import Localizer.Commands.Translate
/-!
# Run — a command line from words to what is printed
-/
namespace Localizer

structure RunReport where
  status : ExitStatus
  /-- why the command failed as a whole -/
  failure : Option Failure
  output : String
  notes : String
  deriving DecidableEq, Repr, Inhabited

def helpText : String :=
  "Usage: localizer [COMMAND]\n\nCommands:\n" ++
  "  process    Replace localize call keys and messages with bundle indices\n" ++
  "  translate  Write translated message bundles for each language\n" ++
  "  init       Initialize a new .nlsrc.json configuration file\n" ++
  "  help       Print this message or the help of the given subcommand(s)\n\n" ++
  "Options:\n  -h, --help     Print help\n  -V, --version  Print version\n"

section

variable {m : Type → Type} [Monad m] [Disk m]

def createConfig (working : String) : Command m CommandResult := do
  let path := Path.join working Config.fileName
  if ← Command.ask (Disk.present path) then throw (.configPresent Config.fileName)
  match ← Command.ask (Disk.writeText path Config.standard.toJson.pretty.toList) with
  | .ok () => return CommandResult.ofDiagnostics .init []
  | .error e => throw (.file e)

def runCommand (working : String) : Arguments → Command m CommandResult
  | .process args => Process.run working args
  | .translate args => Translate.run working args
  | .init | .nothing => createConfig working

def runArguments (colour : Bool) (working : String) (args : Arguments) : m RunReport := do
  if args == .nothing then return ⟨.success, none, helpText, ""⟩
  let (outcome, notes) ← (runCommand working args).run.run ""
  match outcome with
  | .ok result => return ⟨result.status, none, Report.result colour result, notes⟩
  | .error failure => return ⟨.error, some failure, "", notes⟩

end

end Localizer
