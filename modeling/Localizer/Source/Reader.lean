import Localizer.Source.Dialect
import Localizer.Source.Scanning
import Localizer.Source.Tree
/-!
# Reader — reading a script token by token

A `Reader` looks at the current token, moves on, and may fail at an offset.  It cannot go back: the places that it may
end at are those from its start on (`ReadState.From`), and every place knows where in the script its token stands
(`ReadState.placed`).  Trying one reading and falling back to another (`attempt`) is keeping the old place.  Loops end
because each turn must leave less text behind: `collect` and `fold` take no more turns than the script has characters.
-/
namespace Localizer
namespace Source

open Text (byteLength)

/-- **Where a reader stands**: the current token, the text from it and after it, the end of the token before it, and
whether something was read that only modules have. -/
structure ReadState where
  whole : List Char
  token : Token
  source : List Char
  rest : List Char
  previousEnd : Nat
  moduleSeen : Bool
  /-- no loop takes more turns than this, one for each character of the script -/
  turns : Nat
  placed : Token.Placed whole previousEnd ⟨token, source, rest⟩

namespace ReadState

structure Before (s s' : ReadState) : Prop where
  whole : s'.whole = s.whole
  previousEnd : s.previousEnd ≤ s'.previousEnd
  here : s.token.span.lo ≤ s'.token.span.lo

theorem Before.refl (s : ReadState) : s.Before s := ⟨rfl, Nat.le_refl _, Nat.le_refl _⟩

theorem Before.trans {s s' s'' : ReadState} (h : s.Before s') (h' : s'.Before s'') : s.Before s'' :=
  ⟨h'.whole.trans h.whole, Nat.le_trans h.previousEnd h'.previousEnd, Nat.le_trans h.here h'.here⟩

abbrev From (s : ReadState) := { s' : ReadState // s.Before s' }

def resume (s : ReadState) (offset : Nat) (text : List Char) (h : Stands s.whole offset text) : ReadState :=
  let next := Token.scan false offset text
  { s with
    token := next.token
    source := next.source
    rest := next.rest
    previousEnd := offset
    placed := Token.scan_placed false h }

theorem before_resume (s : ReadState) {offset : Nat} {text : List Char} (h : Stands s.whole offset text)
    (hle : s.token.span.lo ≤ offset) : s.Before (s.resume offset text h) :=
  ⟨rfl, Nat.le_trans s.placed.start_le hle, Nat.le_trans hle (Token.scan_placed false h).start_le⟩

def start (whole : List Char) (offset : Nat) (text : List Char) (h : Stands whole offset text) : ReadState :=
  let first := Token.scan true offset text
  ⟨whole, first.token, first.source, first.rest, offset, false, text.length + 2, Token.scan_placed true h⟩

def next (s : ReadState) : ReadState := s.resume s.token.span.hi s.rest s.placed.rest

theorem before_next (s : ReadState) : s.Before s.next := s.before_resume _ s.placed.lo_le_hi

theorem stands_drop_source (s : ReadState) (n : Nat) :
    Stands s.whole (s.token.span.lo + byteLength (s.source.take n)) (s.source.drop n) :=
  Stands.after (by rw [List.take_append_drop]; exact s.placed.source)

theorem stands_drop_rest (s : ReadState) (n : Nat) :
    Stands s.whole (s.token.span.hi + byteLength (s.rest.take n)) (s.rest.drop n) :=
  Stands.after (by rw [List.take_append_drop]; exact s.placed.rest)

end ReadState

structure ReadFailure where
  offset : Nat
  deriving DecidableEq, Repr, Inhabited

/-- **A reader**: from where it stands, a value and a place further on, or a failure. -/
def Reader (α : Type) := (s : ReadState) → Except ReadFailure (α × s.From)

structure Context where
  dialect : Dialect
  /-- `in` is no operator here (in the head of a loop) -/
  noIn : Bool
  inAsync : Bool
  inGenerator : Bool
  inFunction : Bool
  /-- between `?` and `:` -/
  inCondition : Bool
  /-- where imports and exports may stand: in no statement but a namespace -/
  topLevel : Bool
  /-- behind `declare`, where nothing needs a value -/
  ambient : Bool

namespace Reader

variable {α β : Type}

@[inline] protected def bind (p : Reader α) (f : α → Reader β) : Reader β := fun s =>
  match p s with
  | .error e => .error e
  | .ok (a, s') =>
    match f a s'.1 with
    | .error e => .error e
    | .ok (b, s'') => .ok (b, ⟨s''.1, s'.2.trans s''.2⟩)

instance : Monad Reader where
  pure a := fun s => .ok (a, ⟨s, .refl s⟩)
  bind := Reader.bind

def fail : Reader α := fun s => .error ⟨s.token.span.lo⟩

def state : Reader ReadState := fun s => .ok (s, ⟨s, .refl s⟩)

def token : Reader Token := return (← state).token

def kind : Reader TokenKind := return (← state).token.kind

def here : Reader Nat := return (← state).token.span.lo

def spanFrom (lo : Nat) : Reader Span := return ⟨lo, (← state).previousEnd⟩

def advance : Reader Unit := fun s => .ok ((), ⟨s.next, s.before_next⟩)

/-- **Take `n` characters from the current token's start as one token**, and move on. -/
def skip (n : Nat) : Reader Unit := fun s =>
  .ok ((), ⟨s.resume _ _ (s.stands_drop_source n), s.before_resume _ (Nat.le_add_right _ _)⟩)

/-- **Pass `n` characters after the current token**, and move on. -/
def skipPast (n : Nat) : Reader Unit := fun s =>
  .ok ((), ⟨s.resume _ _ (s.stands_drop_rest n),
    s.before_resume _ (Nat.le_trans s.placed.lo_le_hi (Nat.le_add_right _ _))⟩)

def setModule (seen : Bool) : Reader Unit := fun s =>
  .ok ((), ⟨{ s with moduleSeen := seen }, ⟨rfl, Nat.le_refl _, Nat.le_refl _⟩⟩)

def markModule : Reader Unit := setModule true

/-- **Try a reading**; if it fails, nothing has been read. -/
def attempt (p : Reader α) : Reader (Option α) := fun s =>
  match p s with
  | .ok (a, s') => .ok (some a, s')
  | .error _ => .ok (none, ⟨s, .refl s⟩)

def peek (p : Reader α) : Reader α := fun s =>
  match p s with
  | .ok (a, _) => .ok (a, ⟨s, .refl s⟩)
  | .error e => .error e

def would (p : Reader α) : Reader Bool := fun s =>
  match p s with
  | .ok _ => .ok (true, ⟨s, .refl s⟩)
  | .error _ => .ok (false, ⟨s, .refl s⟩)

/-- **Read, and try another reading of the same text in its place** if there is a doubt after it. -/
def unlessBetter (p : Reader α) (doubt : Reader Bool) (better : Reader α) : Reader α := fun s =>
  match p s with
  | .error e => .error e
  | .ok (a, s') =>
    match doubt s'.1 with
    | .ok (true, _) =>
      match better s with
      | .ok found => .ok found
      | .error _ => .ok (a, s')
    | _ => .ok (a, s')

def isMark (m : String) : Reader Bool := return (← kind) == .mark m

def isWord (w : String) : Reader Bool := return (← kind) == .word w false

def eatMark (m : String) : Reader Bool := do
  if ← isMark m then advance; return true else return false

def eatWord (w : String) : Reader Bool := do
  if ← isWord w then advance; return true else return false

def expectMark (m : String) : Reader Unit := do
  unless ← eatMark m do fail

def expectWord (w : String) : Reader Unit := do
  unless ← eatWord w do fail

def afterBreak : Reader Bool := return (← token).afterBreak

def atStatementEnd : Reader Bool := do
  let t ← token
  return t.afterBreak || t.kind == .done || t.kind == .mark "\x7d" || t.kind == .mark ";"

/-- **End of a statement**: a semicolon, or a place where one may be missing. -/
def endStatement : Reader Unit := do
  if ← eatMark ";" then return
  unless ← atStatementEnd do fail

def nextToken : Reader Token := peek (do advance; token)

/-! ## Loops -/

/-- **Collect results until a step gives none**, for at most `turns` turns. -/
def collectFor (turns : Nat) (step : Reader (Option α)) (found : List α) : Reader (List α) :=
  match turns with
  | 0 => fail
  | n + 1 => do
    match ← step with
    | none => return found.reverse
    | some a => collectFor n step (a :: found)

def collect (step : Reader (Option α)) : Reader (List α) := do
  collectFor (← state).turns step []

def foldFor (turns : Nat) (step : α → Reader (Option α)) (a : α) : Reader α :=
  match turns with
  | 0 => fail
  | n + 1 => do
    match ← step a with
    | none => return a
    | some b => foldFor n step b

def fold (step : α → Reader (Option α)) (a : α) : Reader α := do
  foldFor (← state).turns step a

/-- **Items between commas up to a closing mark**, which is read; a comma may stand before it. -/
def listUntil (close : String) (item : Reader α) : Reader (List α) := do
  collect do
    if ← eatMark close then return none
    let a ← item
    unless ← isMark close do expectMark ","
    return some a

def allUntil (close : String) (item : Reader α) : Reader (List α) := do
  collect do
    if ← eatMark close then return none
    return some (← item)

/-! ## Names -/

def isNameIn (ctx : Context) (w : String) : Bool :=
  !isReserved w && !(ctx.inGenerator && w == "yield") && !(ctx.inAsync && w == "await")

def ident (ctx : Context) : Reader Ident := do
  let t ← token
  match t.kind with
  | .word w _ => if isNameIn ctx w then do advance; return ⟨w, t.span⟩ else fail
  | _ => fail

def atName (ctx : Context) : Reader Bool := do
  match ← kind with
  | .word w _ => return isNameIn ctx w
  | _ => return false

def anyWord : Reader Ident := do
  let t ← token
  match t.kind with
  | .word w _ => do advance; return ⟨w, t.span⟩
  | _ => fail

def quoted : Reader (Span × Option String) := do
  let t ← token
  match t.kind with
  | .quoted (.text value) => do advance; return (t.span, some value)
  | .quoted _ => do advance; return (t.span, none)
  | _ => fail

end Reader
end Source
end Localizer
