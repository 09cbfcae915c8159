/-
ContainerFlow.Proofs.Text.LineEnding — line endings that are made one.

`Unified` says of two rows of characters that the second is the first
with every line ending written as a line feed, whatever endings stand
side by side.  `unifyLineEndings` gives the only row of which this holds
(`unified_iff`).

A text without carriage returns may be written with any one of the three
endings (`LineEnding.write`), and from each of the three the text comes
back (`unifyLineEndings_write`).
-/
import Mathlib
import ContainerFlow.Text.LineEnding

namespace ContainerFlow

/-- The ways in which a line may end. -/
inductive LineEnding where
  | lineFeed
  | carriageReturnLineFeed
  | carriageReturn
  deriving DecidableEq, Repr

namespace LineEnding

def chars : LineEnding → List Char
  | lineFeed => ['\n']
  | carriageReturnLineFeed => ['\r', '\n']
  | carriageReturn => ['\r']

/-- A character as it is written where lines end in this way. -/
def writeChar (ending : LineEnding) (c : Char) : List Char :=
  if c = '\n' then ending.chars else [c]

/-- A text with every line feed written as this ending. -/
def write (ending : LineEnding) (text : String) : String :=
  String.ofList (text.toList.flatMap ending.writeChar)

end LineEnding

namespace Text

/-! ## Endings made one -/

/-- The second characters are the first with a line feed for every line ending.  A carriage return
with a line feed behind it is one ending and not two. -/
inductive Unified : List Char → List Char → Prop where
  | nil : Unified [] []
  | char {c : Char} {cs ds : List Char} (inLine : c ≠ '\r') (rest : Unified cs ds) :
      Unified (c :: cs) (c :: ds)
  | returnFeed {cs ds : List Char} (rest : Unified cs ds) :
      Unified ('\r' :: '\n' :: cs) ('\n' :: ds)
  | loneReturn {cs ds : List Char} (isLone : cs.head? ≠ some '\n') (rest : Unified cs ds) :
      Unified ('\r' :: cs) ('\n' :: ds)

theorem unifyLineEndings_cons_of_ne {c : Char} (h : c ≠ '\r') (cs : List Char) :
    unifyLineEndings (c :: cs) = c :: unifyLineEndings cs := by
  rw [unifyLineEndings, if_neg h]
  rintro rest rfl
  exact absurd rfl h

theorem unifyLineEndings_loneReturn {cs : List Char} (h : cs.head? ≠ some '\n') :
    unifyLineEndings ('\r' :: cs) = '\n' :: unifyLineEndings cs := by
  rw [unifyLineEndings, if_pos rfl]
  rintro rest - rfl
  exact h rfl

theorem unified_unifyLineEndings (cs : List Char) : Unified cs (unifyLineEndings cs) := by
  fun_induction unifyLineEndings cs with
  | case1 => exact .nil
  | case2 rest ih => exact .returnFeed ih
  | case3 c rest hpair ih =>
    by_cases hc : c = '\r'
    · subst hc
      refine .loneReturn (fun hhead => ?_) ih
      obtain ⟨more, rfl⟩ := List.head?_eq_some_iff.mp hhead
      exact hpair more rfl rfl
    · rw [if_neg hc]
      exact .char hc ih

theorem Unified.eq {cs ds : List Char} (h : Unified cs ds) : unifyLineEndings cs = ds := by
  induction h with
  | nil => rfl
  | char inLine rest ih => rw [unifyLineEndings_cons_of_ne inLine, ih]
  | returnFeed rest ih => rw [unifyLineEndings, ih]
  | loneReturn isLone rest ih => rw [unifyLineEndings_loneReturn isLone, ih]

/-- There is one way to make the line endings one. -/
theorem unified_iff {cs ds : List Char} : Unified cs ds ↔ unifyLineEndings cs = ds := by
  constructor
  · exact Unified.eq
  · rintro rfl
    exact unified_unifyLineEndings cs

/-! ## One ending throughout -/

/-- Written with carriage returns, no line starts with a line feed. -/
theorem head?_flatMap_carriageReturn (cs : List Char) :
    (cs.flatMap LineEnding.carriageReturn.writeChar).head? ≠ some '\n' := by
  cases cs with
  | nil => simp
  | cons c cs =>
    by_cases hc : c = '\n'
    · simp [LineEnding.writeChar, LineEnding.chars, hc]
    · simp [LineEnding.writeChar, hc]

theorem unified_flatMap_writeChar (ending : LineEnding) {cs : List Char} (h : '\r' ∉ cs) :
    Unified (cs.flatMap ending.writeChar) cs := by
  induction cs with
  | nil => exact .nil
  | cons c cs ih =>
    rw [List.mem_cons, not_or] at h
    have hrest := ih h.2
    rw [List.flatMap_cons, LineEnding.writeChar]
    split
    · next hc =>
      subst hc
      cases ending with
      | lineFeed => exact .char (by decide) hrest
      | carriageReturnLineFeed => exact .returnFeed hrest
      | carriageReturn => exact .loneReturn (head?_flatMap_carriageReturn cs) hrest
    · exact .char (Ne.symm h.1) hrest

/-- Whichever ending a text is written with, the text comes back. -/
theorem unifyLineEndings_write (ending : LineEnding) {text : String} (h : '\r' ∉ text.toList) :
    unifyLineEndings (ending.write text).toList = text.toList := by
  rw [LineEnding.write, String.toList_ofList]
  exact (unified_flatMap_writeChar ending h).eq

end Text

end ContainerFlow
