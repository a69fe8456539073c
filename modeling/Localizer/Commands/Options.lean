/-!
# Options — reading the words of a command line

Words are read from the left.  A value may stand in the word of its option or in the next one; what an option is given
is checked when the next option is read or the line ends, so that a word that cannot be read is told first.
-/
namespace Localizer

/-- **Why a command line cannot be carried out.**  Asking for help or for the version ends it, too. -/
inductive UsageError where
  | unknownArgument
  | unknownCommand
  | missingArgument
  | invalidValue
  | conflict
  | tooManyValues
  | help
  | version
  deriving DecidableEq, Repr, Inhabited

inductive OptionKind where
  | flag
  /-- a text that is not empty -/
  | path
  | text
  /-- a text, and the option may be given several times -/
  | list
  | help
  | version
  deriving DecidableEq, Repr, Inhabited

structure OptionRule where
  long : String
  short : Option Char
  kind : OptionKind
  deriving DecidableEq, Repr, Inhabited

def OptionKind.takesValue : OptionKind → Bool
  | .path | .text | .list => true
  | .flag | .help | .version => false

abbrev Given := List (OptionRule × String)

structure Pending where
  rule : OptionRule
  value : Option String
  deriving DecidableEq, Repr, Inhabited

structure OptionState where
  given : Given
  pending : Option Pending
  deriving DecidableEq, Repr, Inhabited

namespace Options

def record (given : Given) (rule : OptionRule) (value : String) : Except UsageError Given :=
  let repeated := given.any fun g => g.1.long == rule.long
  match rule.kind with
  | .help => .error .help
  | .version => .error .version
  | .list => .ok (given ++ [(rule, value)])
  | .flag | .text => if repeated then .error .conflict else .ok (given ++ [(rule, value)])
  | .path =>
    if repeated then .error .conflict
    else if value.isEmpty then .error .invalidValue
    else .ok (given ++ [(rule, value)])

def settle (s : OptionState) : Except UsageError Given :=
  match s.pending with
  | none => .ok s.given
  | some ⟨rule, some value⟩ => record s.given rule value
  | some ⟨_, none⟩ => .error .invalidValue

def complete (s : OptionState) (rule : OptionRule) (value : String) : Except UsageError OptionState := do
  return ⟨← record (← settle s) rule value, none⟩

def await (s : OptionState) (rule : OptionRule) : Except UsageError OptionState := do
  return ⟨← settle s, some ⟨rule, none⟩⟩

def splitValue (cs : List Char) : String × Option String :=
  match cs.dropWhile (· != '=') with
  | [] => (String.ofList cs, none)
  | _ :: value => (String.ofList (cs.takeWhile (· != '=')), some (String.ofList value))

def long (rules : List OptionRule) (s : OptionState) (cs : List Char) : Except UsageError OptionState :=
  let (name, value) := splitValue cs
  match rules.find? (·.long == name) with
  | none => .error .unknownArgument
  | some rule =>
    match rule.kind.takesValue, value with
    | true, some v => complete s rule v
    | true, none => await s rule
    | false, some _ => .error .tooManyValues
    | false, none => complete s rule ""

/-- **A word of short options**, the last of which may take the rest of the word as its value. -/
def short (rules : List OptionRule) : OptionState → List Char → Except UsageError OptionState
  | s, [] => .ok s
  | s, c :: cs =>
    match rules.find? (·.short == some c) with
    | none => .error .unknownArgument
    | some rule =>
      if rule.kind.takesValue then
        match cs with
        | [] => await s rule
        | '=' :: value => complete s rule (String.ofList value)
        | value => complete s rule (String.ofList value)
      else
        match complete s rule "" with
        | .ok s => short rules s cs
        | .error e => .error e

/-- **Read words.**  There are no arguments besides options, so a word that is no option must be a value. -/
def readWords (rules : List OptionRule) : OptionState → List String → Except UsageError Given
  | s, [] => settle s
  | s, word :: words =>
    match word.toList with
    | '-' :: '-' :: [] => if words.isEmpty then settle s else .error .unknownArgument
    | '-' :: '-' :: cs =>
      match long rules s cs with
      | .ok s => readWords rules s words
      | .error e => .error e
    | '-' :: c :: cs =>
      match short rules s (c :: cs) with
      | .ok s => readWords rules s words
      | .error e => .error e
    | _ =>
      match s.pending with
      | some ⟨rule, none⟩ => readWords rules ⟨s.given, some ⟨rule, some word⟩⟩ words
      | _ => .error .unknownArgument

def read (rules : List OptionRule) (words : List String) : Except UsageError Given := readWords rules ⟨[], none⟩ words

end Options

namespace Given

def value? (given : Given) (long : String) : Option String := (given.find? (·.1.long == long)).map (·.2)

def values (given : Given) (long : String) : List String := (given.filter (·.1.long == long)).map (·.2)

def has (given : Given) (long : String) : Bool := given.any (·.1.long == long)

end Given
end Localizer
