import Localizer.Text.Comments
/-!
# Stripping — comments go, strings and plain text stay

A text is put together from pieces: plain text, strings, comments between `/*` and `*/`, and comments from `//` to the end
of their line.  The walk that strips comments takes one such piece at a time, so it stays in step with them whatever marks
and quotes stand inside (`stripComments_pieces`).
-/
namespace Localizer
namespace Text

/-- **One step through a string**: a character, or a backslash with the character that it takes along. -/
inductive StringUnit where
  | char (c : Char) (h : c ≠ '"' ∧ c ≠ '\\')
  | escape (c : Char) (h : c ≠ '\n')

def StringUnit.text : StringUnit → List Char
  | .char c _ => [c]
  | .escape c _ => ['\\', c]

/-- **A piece of a text.**  A block comment ends where it is closed first, a line comment stays within its line. -/
inductive Piece where
  | plain (cs : List Char) (h : ∀ c ∈ cs, c ≠ '"' ∧ c ≠ '/')
  | quoted (units : List StringUnit)
  | block (body : List Char) (h : ¬ ['*', '/'] <:+: body)
  | line (body : List Char) (h : ∀ c ∈ body, c ≠ '\r' ∧ c ≠ '\n')

namespace Piece

def text : Piece → List Char
  | plain cs _ => cs
  | quoted units => '"' :: (units.flatMap StringUnit.text ++ ['"'])
  | block body _ => '/' :: '*' :: (body ++ ['*', '/'])
  | line body _ => '/' :: '/' :: body

/-- **What is to be kept of a piece**: all of it, or nothing of a comment. -/
def kept : Piece → List Char
  | plain cs h => (plain cs h).text
  | quoted units => (quoted units).text
  | block _ _ | line _ _ => []

/-- **Every line comment runs up to a line break** or to the end of the text. -/
def LinesEnd : List Piece → Prop
  | [] => True
  | line _ _ :: ps => (∀ c ∈ (ps.flatMap text).head?, c = '\r' ∨ c = '\n') ∧ LinesEnd ps
  | _ :: ps => LinesEnd ps

end Piece

/-! ## Where pieces end -/

theorem closeString_units (rest : List Char) : ∀ units : List StringUnit,
    closeString (units.flatMap StringUnit.text ++ '"' :: rest) = some (units.flatMap StringUnit.text ++ ['"'], rest)
  | [] => rfl
  | .char c h :: units => by
    rw [List.flatMap_cons, StringUnit.text, List.singleton_append, List.cons_append, closeString,
      closeString_units rest units]
    · rfl
    · exact h.1
    · exact fun hc _ => h.2 hc
    · exact fun _ _ hc _ => h.2 hc
  | .escape c h :: units => by
    rw [List.flatMap_cons, StringUnit.text, List.append_assoc, List.cons_append, List.singleton_append, closeString,
      if_neg (by simpa using h), closeString_units rest units]
    rfl

theorem closeBlock_body (rest : List Char) : ∀ {body : List Char}, ¬ ['*', '/'] <:+: body →
    closeBlock (body ++ '*' :: '/' :: rest) = some rest
  | [], _ => rfl
  | c :: body, h => by
    rw [List.cons_append, closeBlock, closeBlock_body rest fun hin => h (List.infix_cons hin)]
    -- closed here already, the comment would hold its own end
    rintro tail rfl htail
    cases body with
    | nil => cases htail
    | cons d body =>
      obtain rfl : d = '/' := (List.cons.inj htail).1
      exact h ⟨[], body, rfl⟩

theorem closeLine_body {rest : List Char} (hrest : ∀ c ∈ rest.head?, c = '\r' ∨ c = '\n') : ∀ {body : List Char},
    (∀ c ∈ body, c ≠ '\r' ∧ c ≠ '\n') → closeLine (body ++ rest) = rest
  | [], _ => by
    cases rest with
    | nil => rfl
    | cons c rest =>
      have hc := hrest c rfl
      rw [List.nil_append, closeLine, List.dropWhile_cons_of_neg (by rcases hc with rfl | rfl <;> decide)]
  | c :: body, h => by
    have hc := h c List.mem_cons_self
    have hbody := closeLine_body hrest fun d hd => h d (List.mem_cons_of_mem _ hd)
    rw [closeLine] at hbody ⊢
    rw [List.cons_append, List.dropWhile_cons_of_pos (by simpa using hc), hbody]

theorem nextPiece_plain {c : Char} (h : c ≠ '"' ∧ c ≠ '/') (rest : List Char) : nextPiece c rest = ([c], rest) := by
  simp [nextPiece, h.1, h.2]

theorem nextPiece_quoted (units : List StringUnit) (rest : List Char) :
    nextPiece '"' (units.flatMap StringUnit.text ++ '"' :: rest) = ((Piece.quoted units).text, rest) := by
  simp [nextPiece, closeString_units, Piece.text]

theorem nextPiece_block {body : List Char} (h : ¬ ['*', '/'] <:+: body) (rest : List Char) :
    nextPiece '/' ('*' :: (body ++ '*' :: '/' :: rest)) = ([], rest) := by
  simp [nextPiece, closeBlock_body rest h]

theorem nextPiece_line {body rest : List Char} (h : ∀ c ∈ body, c ≠ '\r' ∧ c ≠ '\n')
    (hrest : ∀ c ∈ rest.head?, c = '\r' ∨ c = '\n') : nextPiece '/' ('/' :: (body ++ rest)) = ([], rest) := by
  simp [nextPiece, closeLine_body hrest h]

/-! ## One piece after another -/

theorem stripComments_step {c : Char} {cs front rest : List Char} (h : nextPiece c cs = (front, rest)) :
    stripComments (c :: cs) = front ++ stripComments rest := by
  rw [stripComments, h]

theorem stripComments_plain (rest : List Char) : ∀ {cs : List Char}, (∀ c ∈ cs, c ≠ '"' ∧ c ≠ '/') →
    stripComments (cs ++ rest) = cs ++ stripComments rest
  | [], _ => rfl
  | c :: cs, h => by
    rw [List.cons_append, stripComments_step (nextPiece_plain (h c List.mem_cons_self) _),
      stripComments_plain rest fun d hd => h d (List.mem_cons_of_mem _ hd)]
    rfl

/-- **Comments are removed, and nothing else is.**  Of a text that is put together from pieces, the plain text and the
strings are left, unchanged and in order. -/
theorem stripComments_pieces : ∀ ps : List Piece, Piece.LinesEnd ps →
    stripComments (ps.flatMap Piece.text) = ps.flatMap Piece.kept
  | [], _ => by rw [List.flatMap_nil, List.flatMap_nil, stripComments]
  | .plain cs hcs :: ps, h => by
    rw [List.flatMap_cons, List.flatMap_cons, ← stripComments_pieces ps h]
    exact stripComments_plain _ hcs
  | .quoted units :: ps, h => by
    have hnext := nextPiece_quoted units (ps.flatMap Piece.text)
    rw [List.flatMap_cons, List.flatMap_cons, ← stripComments_pieces ps h, Piece.text, List.cons_append,
      List.append_assoc]
    exact stripComments_step hnext
  | .block body hbody :: ps, h => by
    have hnext := nextPiece_block hbody (ps.flatMap Piece.text)
    rw [List.flatMap_cons, List.flatMap_cons, ← stripComments_pieces ps h, Piece.text, List.cons_append, List.cons_append,
      List.append_assoc]
    exact stripComments_step hnext
  | .line body hbody :: ps, ⟨hend, h⟩ => by
    rw [List.flatMap_cons, List.flatMap_cons, ← stripComments_pieces ps h]
    exact stripComments_step (nextPiece_line hbody hend)

/-- Marks of comments and an escaped quote in a string, quotes and marks in comments, and no space between a string and a
comment. -/
theorem stripComments_pieces_mixed : ∃ ps : List Piece, ps.length = 7 ∧ Piece.LinesEnd ps ∧
    ps.flatMap Piece.text = "[\"//\\\"/*\\\\\"/*\"//**/,1//*\"/*\r\n]//".toList ∧
    stripComments "[\"//\\\"/*\\\\\"/*\"//**/,1//*\"/*\r\n]//".toList = "[\"//\\\"/*\\\\\",1\r\n]".toList := by
  let string : Piece := .quoted [.char '/' (by simp), .char '/' (by simp), .escape '"' (by simp),
    .char '/' (by simp), .char '*' (by simp), .escape '\\' (by simp)]
  let ps : List Piece := [.plain ['['] (by simp), string, .block ['"', '/', '/', '*'] (by decide),
    .plain [',', '1'] (by simp), .line ['*', '"', '/', '*'] (by simp), .plain ['\r', '\n', ']'] (by simp),
    .line [] (by simp)]
  have hend : Piece.LinesEnd ps := ⟨by simp [Piece.text], by simp, trivial⟩
  have htext : ps.flatMap Piece.text = "[\"//\\\"/*\\\\\"/*\"//**/,1//*\"/*\r\n]//".toList := by decide
  refine ⟨ps, rfl, hend, htext, ?_⟩
  rw [← htext, stripComments_pieces ps hend]
  decide

end Text
end Localizer
