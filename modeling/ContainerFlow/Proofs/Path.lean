/-
ContainerFlow.Proofs.Path — paths that are written and read back.

A path from the top is written with a slash in front of every name.
Cutting such a text at its slashes gives back the names
(`Text.pieces_flatten`), so that it reads as the path that was written
(`ofText_render`).
-/
import Mathlib
import ContainerFlow.Path

namespace ContainerFlow

namespace Text

variable {isCut : Char → Bool}

/-- Pieces, each behind a separator, are found again. -/
theorem pieces_flatten {d : Char} (hd : isCut d = true) {names : List (List Char)}
    (h : ∀ name ∈ names, ∀ c ∈ name, isCut c = false) :
    pieces isCut (names.map (d :: ·)).flatten = [] :: names := by
  induction names with
  | nil => rfl
  | cons name names ih =>
    obtain ⟨hname, hnames⟩ := List.forall_mem_cons.mp h
    rw [List.map_cons, List.flatten_cons, List.cons_append, pieces, if_pos hd,
      pieces_append hname, ih hnames]
    simp

end Text

namespace Path

/-- A name that can be a part of a path: it is not cut in two, and does not get lost. -/
structure IsPart (name : String) : Prop where
  no_slash : '/' ∉ name.toList
  ne_empty : name ≠ ""
  ne_here : name ≠ herePart

/-- From the top, there is a slash in front of every name. -/
theorem toList_render_top {names : List String} (hne : names ≠ []) :
    (render ⟨.top, names⟩).toList = ((names.map String.toList).map ('/' :: ·)).flatten := by
  have hslash (first : String) (rest : List String) :
      ("/" ++ "/".intercalate (first :: rest)).toList =
        (((first :: rest).map String.toList).map ('/' :: ·)).flatten := by
    induction rest generalizing first with
    | nil => simp [String.toList_append]
    | cons next rest ih =>
      rw [String.intercalate_cons_cons, List.map_cons, List.map_cons, List.flatten_cons, ← ih]
      simp [String.toList_append]
  obtain ⟨first, rest, rfl⟩ := List.exists_cons_of_ne_nil hne
  exact hslash first rest

/-- What is written of a path from the top reads as this path. -/
theorem ofText_render {names : List String} (h : ∀ name ∈ names, IsPart name) :
    ofText (render ⟨.top, names⟩) = ⟨.top, names⟩ := by
  cases names with
  | nil => rfl
  | cons first rest =>
    have htext := toList_render_top (List.cons_ne_nil first rest)
    have hstart : startOfText (render ⟨.top, first :: rest⟩) = .top := by
      obtain ⟨c, later, hfirst⟩ := List.exists_cons_of_ne_nil
        (mt String.toList_eq_nil_iff.mp (h first List.mem_cons_self).ne_empty)
      have hc : c ≠ '/' := fun heq =>
        (h first List.mem_cons_self).no_slash (by simp [hfirst, heq])
      rw [startOfText, htext, List.map_cons, List.map_cons, List.flatten_cons, hfirst]
      simp [hc]
    have hpieces : Text.pieces (· = '/') (render ⟨.top, first :: rest⟩).toList =
        [] :: (first :: rest).map String.toList := by
      rw [htext]
      refine Text.pieces_flatten (by decide) fun chars hchars c hc => ?_
      obtain ⟨name, hname, rfl⟩ := List.mem_map.mp hchars
      exact decide_eq_false fun heq => (h name hname).no_slash (heq ▸ hc)
    have hfilled : ((first :: rest).map String.toList).filter (!·.isEmpty) =
        (first :: rest).map String.toList := by
      refine List.filter_eq_self.mpr fun chars hchars => ?_
      obtain ⟨name, hname, rfl⟩ := List.mem_map.mp hchars
      simpa [String.toList_eq_nil_iff] using (h name hname).ne_empty
    have hhere : (first :: rest).filter (· ≠ herePart) = first :: rest :=
      List.filter_eq_self.mpr fun name hname => decide_eq_true (h name hname).ne_here
    have hback : String.ofList ∘ String.toList = id := funext fun _ => String.ofList_toList
    rw [ofText, hstart, Text.filledPieces, hpieces, List.filter_cons_of_neg (by simp), hfilled,
      List.map_map, hback, List.map_id, hhere]

end Path

end ContainerFlow
