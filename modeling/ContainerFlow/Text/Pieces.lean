/-
ContainerFlow.Text.Pieces — cutting a text at separators.

A text that is cut at every separator falls into pieces, one more than there are separators; pieces
between neighbouring separators are empty.
-/

namespace ContainerFlow.Text

/-- The pieces between the characters that `isCut` picks, empty ones too. -/
def pieces (isCut : Char → Bool) : List Char → List (List Char)
  | [] => [[]]
  | c :: rest =>
    if isCut c then [] :: pieces isCut rest else (pieces isCut rest).modifyHead (c :: ·)

/-- The pieces that are not empty. -/
def filledPieces (isCut : Char → Bool) (text : String) : List String :=
  ((pieces isCut text.toList).filter (!·.isEmpty)).map String.ofList

variable {isCut : Char → Bool}

theorem pieces_ne_nil (cs : List Char) : pieces isCut cs ≠ [] := by
  induction cs with
  | nil => simp [pieces]
  | cons c rest ih =>
    by_cases h : isCut c = true
    · simp [pieces, h]
    · cases hp : pieces isCut rest with
      | nil => exact absurd hp ih
      | cons p ps => simp [pieces, h, hp]

/-- What stands in front of the first separator belongs to the first piece. -/
theorem pieces_append {cs : List Char} (h : ∀ c ∈ cs, isCut c = false) (rest : List Char) :
    pieces isCut (cs ++ rest) = (pieces isCut rest).modifyHead (cs ++ ·) := by
  induction cs with
  | nil => cases hp : pieces isCut rest <;> simp [hp]
  | cons c cs ih =>
    obtain ⟨hc, hcs⟩ := List.forall_mem_cons.mp h
    rw [List.cons_append, pieces, hc, if_neg (by decide), ih hcs]
    cases pieces isCut rest <;> simp

/-- No separator stands inside a piece. -/
theorem eq_false_of_mem_pieces {cs p : List Char} (hp : p ∈ pieces isCut cs) :
    ∀ c ∈ p, isCut c = false := by
  induction cs generalizing p with
  | nil => simp_all [pieces]
  | cons c rest ih =>
    by_cases h : isCut c = true
    · simp only [pieces, h, if_true, List.mem_cons] at hp
      rcases hp with rfl | hp
      · simp
      · exact ih hp
    · cases hr : pieces isCut rest with
      | nil => exact absurd hr (pieces_ne_nil rest)
      | cons q qs =>
        rw [pieces, if_neg h, hr, List.modifyHead_cons, List.mem_cons] at hp
        rcases hp with rfl | hp
        · intro d hd
          rcases List.mem_cons.1 hd with rfl | hd
          · simpa using h
          · exact ih (by simp [hr]) d hd
        · exact ih (by simp [hr, hp])

end ContainerFlow.Text
