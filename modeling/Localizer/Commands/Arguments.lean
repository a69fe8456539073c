import Localizer.Commands.Options
/-!
# Arguments — the commands and what they are given
-/
namespace Localizer

structure ProcessArguments where
  root : Option String
  outDir : Option String
  bundleId : Option String
  moduleName : Option String
  relativePaths : Bool
  verbose : Bool
  deriving DecidableEq, Repr, Inhabited

structure TranslateArguments where
  root : Option String
  i18n : Option String
  languages : List String
  verbose : Bool
  deriving DecidableEq, Repr, Inhabited

inductive Arguments where
  | nothing
  | process (args : ProcessArguments)
  | translate (args : TranslateArguments)
  | init
  deriving DecidableEq, Repr, Inhabited

namespace Arguments

def helpRule : OptionRule := ⟨"help", some 'h', .help⟩

def outerRules : List OptionRule := [helpRule, ⟨"version", some 'V', .version⟩]

def commonRules : List OptionRule := [helpRule, ⟨"root", none, .path⟩, ⟨"verbose", some 'v', .flag⟩]

def processRules : List OptionRule :=
  commonRules ++ [⟨"out-dir", none, .path⟩, ⟨"bundle-id", none, .text⟩, ⟨"module-name", none, .text⟩,
    ⟨"relative-paths", none, .flag⟩]

def translateRules : List OptionRule := commonRules ++ [⟨"i18n", none, .path⟩, ⟨"language", some 'l', .list⟩]

def commandNames : List String := ["process", "translate", "init", "help"]

def readProcess (words : List String) : Except UsageError Arguments := do
  let given ← Options.read processRules words
  return .process {
    root := given.value? "root"
    outDir := given.value? "out-dir"
    bundleId := given.value? "bundle-id"
    moduleName := given.value? "module-name"
    relativePaths := given.has "relative-paths"
    verbose := given.has "verbose" }

def readTranslate (words : List String) : Except UsageError Arguments := do
  let given ← Options.read translateRules words
  let languages := given.values "language"
  if languages.isEmpty then .error .missingArgument
  else
    return .translate {
      root := given.value? "root"
      i18n := given.value? "i18n"
      languages := languages
      verbose := given.has "verbose" }

def readInit (words : List String) : Except UsageError Arguments := do
  let _ ← Options.read [helpRule] words
  return .init

/-- **Help about a command.**  No command has commands of its own. -/
def readHelp (words : List String) : UsageError :=
  match words with
  | [] => .help
  | [name] => if commandNames.contains name then .help else .unknownCommand
  | _ => .unknownCommand

def read (words : List String) : Except UsageError Arguments :=
  match words with
  | [] => .ok .nothing
  | word :: rest =>
    match word with
    | "process" => readProcess rest
    | "translate" => readTranslate rest
    | "init" => readInit rest
    | "help" => .error (readHelp rest)
    | "--" =>
      match rest with
      | [] => .ok .nothing
      | name :: _ => if commandNames.contains name then .error .unknownArgument else .error .unknownCommand
    | _ =>
      match word.toList with
      | '-' :: '-' :: cs => (Options.long outerRules ⟨[], none⟩ cs).bind fun _ => .error .unknownArgument
      | '-' :: c :: cs => (Options.short outerRules ⟨[], none⟩ (c :: cs)).bind fun _ => .error .unknownArgument
      | _ => .error .unknownCommand

end Arguments
end Localizer
