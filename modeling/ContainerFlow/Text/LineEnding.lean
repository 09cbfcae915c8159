/-
ContainerFlow.Text.LineEnding — one form for the ends of lines.

A text that comes from a file may end its lines with a line feed, with a carriage return and a line
feed, or with a carriage return alone.  Readers get one form: `unifyLineEndings` turns the last two
into the first.
-/

namespace ContainerFlow.Text

/-- The characters with every line ending written as one line feed. -/
def unifyLineEndings : List Char → List Char
  | [] => []
  | '\r' :: '\n' :: rest => '\n' :: unifyLineEndings rest
  | c :: rest => (if c = '\r' then '\n' else c) :: unifyLineEndings rest

/-- A text without carriage returns is left as it is. -/
theorem unifyLineEndings_of_notMem {cs : List Char} (h : '\r' ∉ cs) :
    unifyLineEndings cs = cs := by
  fun_induction unifyLineEndings cs with
  | case1 => rfl
  | case2 rest ih => simp at h
  | case3 c rest _ ih =>
    rw [List.mem_cons, not_or] at h
    rw [ih h.2, if_neg (Ne.symm h.1)]

end ContainerFlow.Text
