import Localizer.Source.Grammar.Statements
/-!
# Program — reading a whole script

`Program.read` ties the grammar together and reads statements up to the end of the text.
-/
namespace Localizer
namespace Source

open Text (byteLength)

def Rules.deeper (r : Rules) : Rules where
  expr := Grammar.expr r
  binary := Grammar.binary r
  unary := Grammar.unary r
  made := Grammar.made r
  target := Grammar.target r
  type := Grammar.type r
  unconditional := Grammar.unconditionalType r
  stmt := Grammar.stmt r
  element := Grammar.element r

/-- **Rules for a script with `depth` levels of nesting.** -/
def Rules.upTo (depth : Nat) : Rules := Nat.repeat Rules.deeper depth Rules.nothing

def interpreterLength (text : List Char) : Nat :=
  match text with
  | '#' :: '!' :: cs => 2 + (cs.takeWhile (!isBreak ·)).length
  | _ => 0

def ReadState.ofText (text : List Char) : ReadState :=
  let n := interpreterLength text
  .start text (byteLength (text.take n)) (text.drop n) ⟨_, _, (text.take_append_drop n).symm, rfl, .inl rfl⟩

def Context.outermost (dialect : Dialect) : Context where
  dialect := dialect
  noIn := false
  inAsync := false
  inGenerator := false
  inFunction := false
  inCondition := false
  topLevel := true
  ambient := false

def Program.read (dialect : Dialect) (text : List Char) : Except ReadFailure Program :=
  let rules := Rules.upTo (text.length + 2)
  let statements : Reader (List Stmt) := Reader.collect do
    if (← Reader.kind) == .done then return none
    return some (← rules.stmt (Context.outermost dialect))
  match statements (.ofText text) with
  | .ok (body, s) => .ok ⟨s.1.moduleSeen, body⟩
  | .error e => .error e

end Source
end Localizer
