import Localizer.Text.Units
import Localizer.Source.Literal
/-!
# Token — the words of a script

`Token.scan` skips blank space and comments and reads one token.  A slash is read as a mark, never as the start of a
pattern, and a backquote as a mark of its own: the reader of expressions knows better and scans again from the token's
first character.  Text that is no token gives `invalid`, which fails only if somebody wants it.
-/
namespace Localizer
namespace Source

open Text (byteLength)

/-- **A stretch of the script in byte offsets**, the second not included. -/
structure Span where
  lo : Nat
  hi : Nat
  deriving DecidableEq, Repr, Inhabited

inductive TokenKind where
  | word (name : String) (escaped : Bool)
  | hidden (name : String)
  | mark (text : String)
  | number
  | quoted (value : Cooked)
  | done
  | invalid
  deriving DecidableEq, Repr, Inhabited

structure Token where
  kind : TokenKind
  span : Span
  afterBreak : Bool
  deriving DecidableEq, Repr, Inhabited

/-- **The marks**, longer ones before their beginnings.  Of those that start with `>` only `>` itself is a token: the
reader of operators joins the others, because closing angle brackets stand next to each other in types. -/
def marks : List String := [
  "...", "===", "!==", "**=", "<<=", "&&=", "||=", "??=",
  "=>", "==", "!=", "<=", "**", "++", "--", "<<", "&&", "||", "??", "?.",
  "+=", "-=", "*=", "/=", "%=", "&=", "|=", "^=",
  "\x7b", "\x7d", "(", ")", "[", "]", ";", ",", "<", ">", "+", "-", "*", "/", "%", "&", "|", "^",
  "!", "~", "?", ":", "=", ".",
  "@", "`"]

/-! ## Blank space and comments -/

inductive TriviaMode where
  | between
  | line
  | block

/-- **Where the next token starts**: whether a line break was passed, the offset and the text there.  An unclosed
comment has no end. -/
structure Gap where
  sawBreak : Bool
  offset : Nat
  text : List Char

/-- **Skip blank space and comments.**  `<!--` starts a comment like `//`, and so does `-->` at the start of a line. -/
def skipGap : TriviaMode → Bool → Nat → List Char → Option Gap
  | .between, saw, offset, '/' :: '/' :: cs => skipGap .line saw (offset + 2) cs
  | .between, saw, offset, '/' :: '*' :: cs => skipGap .block saw (offset + 2) cs
  | .between, saw, offset, '<' :: '!' :: '-' :: '-' :: cs => skipGap .line saw (offset + 4) cs
  | .between, saw, offset, '-' :: '-' :: '>' :: cs =>
    if saw then skipGap .line saw (offset + 3) cs else some ⟨saw, offset, '-' :: '-' :: '>' :: cs⟩
  | .block, saw, offset, '*' :: '/' :: cs => skipGap .between saw (offset + 2) cs
  | .between, saw, offset, c :: cs =>
    if isBreak c then skipGap .between true (offset + c.utf8Size) cs
    else if isBlank c then skipGap .between saw (offset + c.utf8Size) cs
    else some ⟨saw, offset, c :: cs⟩
  | .line, saw, offset, c :: cs =>
    if isBreak c then skipGap .between true (offset + c.utf8Size) cs else skipGap .line saw (offset + c.utf8Size) cs
  | .block, saw, offset, c :: cs => skipGap .block (saw || isBreak c) (offset + c.utf8Size) cs
  | .block, _, _, [] => none
  | _, saw, offset, [] => some ⟨saw, offset, []⟩

/-! ## Tokens -/

def scanMark (cs : List Char) : Option (String × List Char) :=
  (marks.find? fun m => m.toList.isPrefixOf cs).map fun m =>
    -- `?.` before a digit is a condition and a number
    if m == "?." && (cs.drop 2).head?.any Char.isDigit then ("?", cs.drop 1) else (m, cs.drop m.length)

/-- **What stands at the front of a text**: the kind, its width in bytes, and the text after it. -/
structure Lexeme where
  kind : TokenKind
  width : Nat
  rest : List Char

def Lexeme.invalid : Lexeme := ⟨.invalid, 0, []⟩

def nameWidth (name : String) (escaped : Bool) (cs after : List Char) : Nat :=
  if escaped then byteLength (cs.take (cs.length - after.length)) else name.utf8ByteSize

def Lexeme.scan (cs : List Char) : Lexeme :=
  match cs with
  | [] => ⟨.done, 0, []⟩
  | c :: rest =>
    if isNameStart c || c == '\\' then
      match scanName cs with
      | some (name, escaped, after) => ⟨.word name escaped, nameWidth name escaped cs after, after⟩
      | none => .invalid
    else if c.isDigit || (c == '.' && rest.head?.any Char.isDigit) then
      match numberLength cs with
      | some n => ⟨.number, n, cs.drop n⟩
      | none => .invalid
    else if c == '"' || c == '\'' then
      match scanQuoted c rest with
      | some (raw, after) =>
        match Cooked.ofRaw raw with
        | .malformed => .invalid
        | value => ⟨.quoted value, byteLength raw + 2, after⟩
      | none => .invalid
    else if c == '#' then
      match scanName rest with
      | some (name, escaped, after) => ⟨.hidden name, nameWidth name escaped rest after + 1, after⟩
      | none => .invalid
    else
      match scanMark cs with
      | some (m, after) => ⟨.mark m, m.length, after⟩
      | none => .invalid

structure Scanned where
  token : Token
  source : List Char
  rest : List Char

/-- **The next token** of a text that starts at `offset`; `saw` tells of a line break (or the start) before it. -/
def Token.scan (saw : Bool) (offset : Nat) (cs : List Char) : Scanned :=
  match skipGap .between saw offset cs with
  | none => ⟨⟨.invalid, ⟨offset, offset⟩, saw⟩, [], []⟩
  | some gap =>
    let lexeme := Lexeme.scan gap.text
    ⟨⟨lexeme.kind, ⟨gap.offset, gap.offset + lexeme.width⟩, gap.sawBreak⟩, gap.text, lexeme.rest⟩

end Source
end Localizer
