/-!
# Lines — a text as contents and line endings

`splitLines` cuts a text after every `\r\n`, `\r` and `\n`.  There is always a last line, with no ending; `joinLines`
puts the text back together.
-/
namespace Localizer
namespace Text

/-- **How a line ends.**  Only the last line of a text ends with nothing. -/
inductive Ending where
  | nothing
  | feed
  | carriage
  | carriageFeed
  deriving DecidableEq, Repr, Inhabited

def Ending.text : Ending → List Char
  | .nothing => []
  | .feed => ['\n']
  | .carriage => ['\r']
  | .carriageFeed => ['\r', '\n']

structure Line where
  content : List Char
  ending : Ending
  deriving DecidableEq, Repr, Inhabited

def Line.text (l : Line) : List Char := l.content ++ l.ending.text

def consContent (c : Char) : List Line → List Line
  | [] => [⟨[c], .nothing⟩]
  | l :: ls => ⟨c :: l.content, l.ending⟩ :: ls

def splitLines : List Char → List Line
  | [] => [⟨[], .nothing⟩]
  | '\r' :: '\n' :: cs => ⟨[], .carriageFeed⟩ :: splitLines cs
  | '\r' :: cs => ⟨[], .carriage⟩ :: splitLines cs
  | '\n' :: cs => ⟨[], .feed⟩ :: splitLines cs
  | c :: cs => consContent c (splitLines cs)

def joinLines (ls : List Line) : List Char := ls.flatMap Line.text

theorem joinLines_consContent (c : Char) (ls : List Line) :
    joinLines (consContent c ls) = c :: joinLines ls := by
  cases ls <;> rfl

theorem joinLines_splitLines (cs : List Char) : joinLines (splitLines cs) = cs := by
  fun_induction splitLines cs with
  | case1 => rfl
  | case2 cs ih => simpa [joinLines, Line.text, Ending.text] using ih
  | case3 cs _ ih => simpa [joinLines, Line.text, Ending.text] using ih
  | case4 cs ih => simpa [joinLines, Line.text, Ending.text] using ih
  | case5 c cs _ _ _ ih => rw [joinLines_consContent, ih]

end Text
end Localizer
