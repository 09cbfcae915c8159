/-
ContainerFlow.Proofs.Text.Words — the words of a text are the only ones
that it can be written from.

A text is written from words when these stand in it one behind the other,
with a run of separators between two of them, and with more separators in
front of the first and behind the last, or none (`WrittenFrom`).  Every
text is written from some words (`exists_writtenFrom`), and whatever words
it is written from, splitting it gives these (`words_of_writtenFrom`).  So
the words of a text are what it is written from, and nothing else is
(`words_eq_iff`).
-/
import Mathlib
import ContainerFlow.Text.Words

namespace ContainerFlow.Text

/-! ## What a text is written from -/

/-- The characters that stand between words. -/
def separators : List Char := [' ', '\t', '\n', '\x0c', '\r']

/-- Separators, one behind the other. -/
def IsRun (cs : List Char) : Prop := ∀ c ∈ cs, c ∈ separators

/-- A word: it is not empty, and no separator is in it. -/
structure IsWord (word : String) : Prop where
  ne_empty : word ≠ ""
  whole : ∀ c ∈ word.toList, c ∉ separators

/-- Words one behind the other, with separators between any two that are neighbours. -/
inductive Joined : List String → List Char → Prop where
  | none : Joined [] []
  | last (word : String) : Joined [word] word.toList
  | more {word next : String} {words : List String} {run cs : List Char} (isRun : IsRun run)
      (ne_nil : run ≠ []) (rest : Joined (next :: words) cs) :
      Joined (word :: next :: words) (word.toList ++ run ++ cs)

/-- The text is the words joined, with separators in front and behind, if any. -/
def WrittenFrom (words : List String) (text : String) : Prop :=
  ∃ front joined behind, IsRun front ∧ Joined words joined ∧ IsRun behind ∧
    text.toList = front ++ joined ++ behind

theorem isSeparator_iff {c : Char} : isSeparator c = true ↔ c ∈ separators := by
  simp [isSeparator, separators, or_assoc]

theorem IsWord.not_isSeparator {word : String} (h : IsWord word) :
    ∀ c ∈ word.toList, isSeparator c = false := by
  intro c hc
  have hnot : ¬ isSeparator c = true := mt isSeparator_iff.mp (h.whole c hc)
  simpa using hnot

theorem IsWord.toList_ne_nil {word : String} (h : IsWord word) : word.toList ≠ [] := by
  intro hnil
  exact h.ne_empty (String.toList_eq_nil_iff.mp hnil)

/-! ## Splitting -/

section Filled

variable {isCut : Char → Bool}

/-- The pieces of characters that are not empty. -/
def filled (isCut : Char → Bool) (cs : List Char) : List (List Char) :=
  (pieces isCut cs).filter (!·.isEmpty)

@[simp] theorem filled_nil : filled isCut [] = [] := rfl

theorem filled_cons {c : Char} (hc : isCut c = true) (cs : List Char) :
    filled isCut (c :: cs) = filled isCut cs := by
  simp [filled, pieces, hc]

theorem filled_append {run : List Char} (h : ∀ c ∈ run, isCut c = true) (cs : List Char) :
    filled isCut (run ++ cs) = filled isCut cs := by
  induction run with
  | nil => rfl
  | cons c run ih =>
    obtain ⟨hc, hrun⟩ := List.forall_mem_cons.mp h
    rw [List.cons_append, filled_cons hc, ih hrun]

/-- A piece goes on up to the next separator, or to the end. -/
theorem filled_piece {piece rest : List Char} (hne : piece ≠ [])
    (hpiece : ∀ c ∈ piece, isCut c = false) (hrest : ∀ c ∈ rest.head?, isCut c = true) :
    filled isCut (piece ++ rest) = piece :: filled isCut rest := by
  unfold filled
  rw [pieces_append hpiece]
  cases rest with
  | nil => simp [pieces, hne]
  | cons c rest =>
    have hc : isCut c = true := hrest c rfl
    simp [pieces, hc, hne]

end Filled

theorem words_eq_map_filled (text : String) :
    words text = (filled isSeparator text.toList).map String.ofList := rfl

theorem IsRun.isSeparator {run : List Char} (h : IsRun run) :
    ∀ c ∈ run, isSeparator c = true := by
  intro c hc
  exact isSeparator_iff.mpr (h c hc)

/-- Joined words are found one by one. -/
theorem Joined.filled_eq {ws : List String} {cs behind : List Char} (h : Joined ws cs)
    (hwords : ∀ w ∈ ws, IsWord w) (hbehind : IsRun behind) :
    filled isSeparator (cs ++ behind) = ws.map String.toList := by
  induction h with
  | none => simpa using filled_append hbehind.isSeparator []
  | last word =>
    have hword : IsWord word := hwords word (by simp)
    have hnone : filled isSeparator behind = [] := by
      simpa using filled_append hbehind.isSeparator []
    rw [filled_piece hword.toList_ne_nil hword.not_isSeparator, hnone]
    · rfl
    · intro c hc
      exact hbehind.isSeparator c (List.mem_of_mem_head? hc)
  | @more word next words run cs isRun ne_nil rest ih =>
    obtain ⟨hword, hwords⟩ := List.forall_mem_cons.mp hwords
    rw [List.append_assoc, List.append_assoc,
      filled_piece hword.toList_ne_nil hword.not_isSeparator, filled_append isRun.isSeparator,
      ih hwords]
    · rfl
    · -- The run in front of the next word is not empty.
      intro c hc
      rw [List.head?_append_of_ne_nil run ne_nil] at hc
      exact isRun.isSeparator c (List.mem_of_mem_head? hc)

/-- Whatever words a text is written from, these are its words. -/
theorem words_of_writtenFrom {text : String} {ws : List String} (hwords : ∀ w ∈ ws, IsWord w)
    (h : WrittenFrom ws text) : words text = ws := by
  obtain ⟨front, joined, behind, hfront, hjoined, hbehind, htext⟩ := h
  rw [words_eq_map_filled, htext, List.append_assoc, filled_append hfront.isSeparator,
    hjoined.filled_eq hwords hbehind, List.map_map]
  simp

/-! ## Writing -/

/-- The first word of joined words may start with one more character. -/
theorem Joined.longer {word : String} {words : List String} {cs : List Char}
    (h : Joined (word :: words) cs) (c : Char) :
    Joined (String.ofList (c :: word.toList) :: words) (c :: cs) := by
  cases h with
  | last =>
    have hlast := Joined.last (String.ofList (c :: word.toList))
    rwa [String.toList_ofList] at hlast
  | more isRun ne_nil rest =>
    have hmore : Joined (String.ofList (c :: word.toList) :: _)
        ((String.ofList (c :: word.toList)).toList ++ _ ++ _) := .more isRun ne_nil rest
    rwa [String.toList_ofList] at hmore

theorem isWord_ofList {c : Char} {cs : List Char} (hc : c ∉ separators)
    (hcs : ∀ d ∈ cs, d ∉ separators) : IsWord (String.ofList (c :: cs)) := by
  constructor
  · intro hempty
    have hnil := congrArg String.toList hempty
    simp at hnil
  · rw [String.toList_ofList]
    exact List.forall_mem_cons.mpr ⟨hc, hcs⟩

/-- All characters make up words with separators between them. -/
theorem exists_joined (cs : List Char) :
    ∃ ws front joined behind, (∀ w ∈ ws, IsWord w) ∧ IsRun front ∧ Joined ws joined ∧
      IsRun behind ∧ cs = front ++ joined ++ behind := by
  induction cs with
  | nil => exact ⟨[], [], [], [], nofun, nofun, .none, nofun, rfl⟩
  | cons c cs ih =>
    obtain ⟨ws, front, joined, behind, hwords, hfront, hjoined, hbehind, rfl⟩ := ih
    by_cases hc : c ∈ separators
    · exact ⟨ws, c :: front, joined, behind, hwords, List.forall_mem_cons.mpr ⟨hc, hfront⟩,
        hjoined, hbehind, rfl⟩
    -- The character starts a word of its own, or is put in front of the first word.
    have hsingle : IsWord (String.ofList [c]) := isWord_ofList hc nofun
    cases ws with
    | nil =>
      cases hjoined
      refine ⟨[String.ofList [c]], [], [c], front ++ behind, ?_, nofun, ?_, ?_, by simp⟩
      · simpa using hsingle
      · simpa using Joined.last (String.ofList [c])
      · exact List.forall_mem_append.mpr ⟨hfront, hbehind⟩
    | cons word words =>
      obtain ⟨hword, hothers⟩ := List.forall_mem_cons.mp hwords
      cases front with
      | nil =>
        refine ⟨_, [], c :: joined, behind, ?_, nofun, hjoined.longer c, hbehind, rfl⟩
        exact List.forall_mem_cons.mpr ⟨isWord_ofList hc hword.whole, hothers⟩
      | cons d front =>
        refine ⟨String.ofList [c] :: word :: words, [], [c] ++ (d :: front) ++ joined, behind,
          List.forall_mem_cons.mpr ⟨hsingle, hwords⟩, nofun, ?_, hbehind, by simp⟩
        have hmore : Joined (String.ofList [c] :: word :: words)
            ((String.ofList [c]).toList ++ (d :: front) ++ joined) :=
          .more hfront (by simp) hjoined
        simpa using hmore

theorem exists_writtenFrom (text : String) :
    ∃ ws, (∀ w ∈ ws, IsWord w) ∧ WrittenFrom ws text := by
  obtain ⟨ws, front, joined, behind, hwords, hfront, hjoined, hbehind, htext⟩ :=
    exists_joined text.toList
  exact ⟨ws, hwords, front, joined, behind, hfront, hjoined, hbehind, htext⟩

/-- The words of a text are what it is written from, and nothing else is. -/
theorem words_eq_iff {text : String} {ws : List String} :
    words text = ws ↔ (∀ w ∈ ws, IsWord w) ∧ WrittenFrom ws text := by
  constructor
  · rintro rfl
    obtain ⟨ws, hwords, hwritten⟩ := exists_writtenFrom text
    rw [words_of_writtenFrom hwords hwritten]
    exact ⟨hwords, hwritten⟩
  · rintro ⟨hwords, hwritten⟩
    exact words_of_writtenFrom hwords hwritten

end ContainerFlow.Text
