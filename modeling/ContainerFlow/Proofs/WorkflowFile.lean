/-
ContainerFlow.Proofs.WorkflowFile — what the bytes of a workflow file
come to.

Trees that differ only in the line endings of their files
(`FileTree.SameLines`) lead every path to the same place
(`FileTree.SameLines.resolve`), and a text is read with line feeds whatever
endings it was written with (`textOf_write`).  So a workflow is loaded
from the one as from the other: the main statement on line endings is
`load_ignores_line_endings`.

Whether the bytes that are found are a text decides between two outcomes,
and the main statement on decoding, `load_decodes`, says both: the text
is compiled, or the file is refused where its text ends.
-/
import Mathlib
import ContainerFlow.Proofs.Faults
import ContainerFlow.Proofs.Text.LineEnding
import ContainerFlow.Proofs.Text.Utf8
import ContainerFlow.WorkflowFile

namespace ContainerFlow

/-! ## Files with other line endings -/

/-- The contents are the same, or one text with its lines ended in two ways. -/
inductive SameLines : ByteArray → ByteArray → Prop where
  | same (content : ByteArray) : SameLines content content
  | lines {text : String} (noReturn : '\r' ∉ text.toList) (ending other : LineEnding) :
      SameLines (ending.write text).toUTF8 (other.write text).toUTF8

/-- Both are directories, or files whose contents differ in line endings only. -/
inductive Entry.SameLines : Entry → Entry → Prop where
  | directory : SameLines .directory .directory
  | file {content other : ByteArray} (contents : ContainerFlow.SameLines content other) :
      SameLines (.file content) (.file other)

/-- At every location there is the same in both trees, up to the line endings of files. -/
def FileTree.SameLines (t u : FileTree) : Prop :=
  ∀ place, Option.Rel Entry.SameLines (t.entry? place) (u.entry? place)

namespace FileTree.SameLines

variable {t u : FileTree}

/-- The same names lead to the same place. -/
theorem follow (h : t.SameLines u) (here : Location) (parts : List String) :
    u.follow here parts = t.follow here parts := by
  induction parts generalizing here with
  | nil => rfl
  | cons part rest ih =>
    have hhere := h here
    have hpart := h (here ++ [part])
    rw [FileTree.follow, FileTree.follow, ih, ih]
    generalize t.entry? here = found, u.entry? here = other at hhere ⊢
    generalize t.entry? (here ++ [part]) = next, u.entry? (here ++ [part]) = otherNext at hpart ⊢
    cases hhere with
    | none => rfl
    | some hentry =>
      cases hentry with
      | file => rfl
      | directory => cases hpart <;> rfl

theorem resolve (h : t.SameLines u) (here : Location) (p : Path) :
    u.resolve here p = t.resolve here p := by
  unfold FileTree.resolve
  rw [h.follow, h.follow]

/-- A path leads to nothing in either tree, or to the same but for line endings. -/
theorem rel_lookup {v : View} (h : v.tree.SameLines u) (p : Path) :
    (∃ fault, v.lookup p = .error fault ∧ { v with tree := u }.lookup p = .error fault) ∨
      ∃ x y, v.lookup p = .ok x ∧ { v with tree := u }.lookup p = .ok y ∧
        Option.Rel Entry.SameLines x y := by
  unfold View.lookup FileTree.lookup
  rw [h.resolve]
  cases v.tree.resolve v.here p with
  | error problem =>
    cases problem with
    | tooLong => exact .inl ⟨_, rfl, rfl⟩
    | _ => exact .inr ⟨none, none, rfl, rfl, .none⟩
  | ok place =>
    have hplace := h place
    simp only
    generalize v.tree.entry? place = found, u.entry? place = other at hplace ⊢
    cases hplace with
    | none => exact .inr ⟨none, none, rfl, rfl, .none⟩
    | some hentry => exact .inr ⟨_, _, rfl, rfl, .some hentry⟩

end FileTree.SameLines

namespace WorkflowFile

variable {v : View} {path place : String} {p : Path}

/-! ## What is read -/

/-- Whichever ending its lines have, a text is read with line feeds. -/
theorem textOf_write (ending : LineEnding) {text : String} (h : '\r' ∉ text.toList) :
    textOf p (ending.write text).toUTF8 = .ok text := by
  rw [textOf_toUTF8, Text.unifyLineEndings_write ending h, String.ofList_toList]

theorem textOf_sameLines {content other : ByteArray} (h : SameLines content other) :
    textOf p other = textOf p content := by
  cases h with
  | same => rfl
  | lines noReturn ending other => rw [textOf_write ending noReturn, textOf_write other noReturn]

/-- The same path is looked at, for it depends on directories only. -/
theorem candidate_sameLines {u : FileTree} (h : v.tree.SameLines u) :
    candidate { v with tree := u } path place = candidate v path place := by
  unfold candidate
  show (start v path >>= _) = _
  cases start v path with
  | error fault => rfl
  | ok p =>
    simp only [bind, Except.bind]
    rcases h.rel_lookup p with ⟨fault, hv, hu⟩ | ⟨x, y, hv, hu, hxy⟩
    · rw [hv, hu]
    · rw [hv, hu]
      cases hxy with
      | none => rfl
      | some hentry => cases hentry <;> rfl

/-- The same path is found, and behind it the same but for line endings. -/
theorem find_sameLines {u : FileTree} (h : v.tree.SameLines u) (path place : String) :
    (∃ fault, find v path place = .error fault ∧
        find { v with tree := u } path place = .error fault) ∨
      ∃ p content other, find v path place = .ok (p, content) ∧
        find { v with tree := u } path place = .ok (p, other) ∧ SameLines content other := by
  unfold find
  rw [candidate_sameLines h]
  cases candidate v path place with
  | error fault => exact .inl ⟨fault, rfl, rfl⟩
  | ok p =>
    simp only [bind, Except.bind]
    rcases h.rel_lookup p with ⟨fault, hv, hu⟩ | ⟨x, y, hv, hu, hxy⟩
    · rw [hv, hu]
      exact .inl ⟨fault, rfl, rfl⟩
    · rw [hv, hu]
      cases hxy with
      | none => exact .inl ⟨_, rfl, rfl⟩
      | some hentry =>
        cases hentry with
        | directory => exact .inl ⟨_, rfl, rfl⟩
        | file contents => exact .inr ⟨p, _, _, rfl, rfl, contents⟩

/-- What is no text is not compiled. -/
theorem load_of_textOf_error {content : ByteArray} {fault : Fault}
    (h : find v path place = .ok (p, content)) (htext : textOf p content = .error fault) :
    load v path place = ⟨.error fault, []⟩ := by
  simp only [load, h, read, htext]

/-- A file that the system refuses to read is unreadable, whatever it holds, and nothing is reported
of it. -/
theorem load_of_readError {sys : System} {content : ByteArray} {reason : String}
    (h : find v path place = .ok (p, content)) (hrefused : sys.readError? p = some reason) :
    load v path place sys = ⟨.error (.ofCause (.fileUnreadable p.render reason)), []⟩ := by
  simp only [load, h, read, hrefused]

theorem load_sameLines {u : FileTree} (h : v.tree.SameLines u) :
    load { v with tree := u } path place = load v path place := by
  rcases find_sameLines h path place with ⟨fault, hv, hu⟩ | ⟨p, content, other, hv, hu, hcontents⟩
  · simp only [load, hv, hu]
  · simp only [load, hv, hu, read, textOf_sameLines hcontents]

/-! ## Main results -/

/-- **Line endings do not matter**: a text without carriage returns is compiled as it is, whichever
of the three endings the file has in place of its line feeds; and a path that leads to a file leads
to the same workflow or the same fault in any tree that differs in such endings only. -/
theorem load_ignores_line_endings :
    (∀ v path place p (text : String) (ending : LineEnding), '\r' ∉ text.toList →
      find v path place = .ok (p, (ending.write text).toUTF8) →
      load v path place = Workflow.compile text) ∧
    ∀ (v : View) tree, v.tree.SameLines tree → ∀ path place,
      load { v with tree } path place = load v path place := by
  refine ⟨fun v path place p text ending hreturn hfind => ?_, fun v tree h path place => ?_⟩
  · exact load_of_textOf hfind rfl (textOf_write ending hreturn)
  · exact load_sameLines h

/-- A repository with one file. -/
def soleFile (content : ByteArray) : View :=
  ⟨⟨[(["r"], .directory), (["r", "ci"], .file content)]⟩, ["r"], ⟨"/h", []⟩⟩

theorem find_soleFile (content : ByteArray) :
    find (soleFile content) "ci" "" = .ok (.ofText "ci", content) := by rfl

theorem sameLines_soleFile {content other : ByteArray} (h : SameLines content other) :
    (soleFile content).tree.SameLines (soleFile other).tree := by
  intro place
  unfold FileTree.entry?
  split
  · exact .some .directory
  simp only [soleFile, List.find?_cons, List.find?_nil]
  cases ["r"] == place with
  | true => exact .some .directory
  | false =>
    cases ["r", "ci"] == place with
    | true => exact .some (.file h)
    | false => exact .none

/-- Three actions are loaded however the four lines of their file end, and by way of the directory
too. -/
theorem load_ignores_line_endings_pipeline :
    '\r' ∉ pipelineText.toList ∧
    (∀ ending : LineEnding, find (soleFile (ending.write pipelineText).toUTF8) "ci" "" =
        .ok (.ofText "ci", (ending.write pipelineText).toUTF8) ∧
      load (soleFile (ending.write pipelineText).toUTF8) "ci" "" =
        Workflow.compile pipelineText) ∧
    ∀ ending other : LineEnding,
      (soleFile (ending.write pipelineText).toUTF8).tree.SameLines
        (soleFile (other.write pipelineText).toUTF8).tree ∧
      load (soleFile (other.write pipelineText).toUTF8) "." "ci" =
        load (soleFile (ending.write pipelineText).toUTF8) "." "ci" := by
  have hreturn : '\r' ∉ pipelineText.toList := by decide +kernel
  obtain ⟨htext, htree⟩ := load_ignores_line_endings
  refine ⟨hreturn, fun ending => ?_, fun ending other => ?_⟩
  · have hfind := find_soleFile (ending.write pipelineText).toUTF8
    exact ⟨hfind, htext _ _ _ _ pipelineText ending hreturn hfind⟩
  · have hsame := sameLines_soleFile (.lines hreturn ending other)
    exact ⟨hsame, htree _ _ hsame "." "ci"⟩

/-- A fault of a file that cannot be read. -/
def IsUnreadable (fault : Fault) : Prop :=
  ∃ path reason position, fault = .failure ⟨.fileUnreadable path reason, position⟩

/-- Compiling reads no file, so it never fails as reading does. -/
theorem not_isUnreadable_of_compile {text : String} {fault : Fault}
    (h : (Workflow.compile text).result = .error fault) : ¬ IsUnreadable fault := by
  rintro ⟨path, reason, position, rfl⟩
  obtain ⟨f, hf, hcode⟩ := Workflow.failsOnlyAs_compile text _ h
  cases hf
  simp [Workflow.documentedCodes, Cause.code] at hcode

/-- **A file is refused where its text ends**: bytes that encode a text are compiled as this text,
with its line endings made one, and are never unreadable; other bytes are unreadable at the length
of the longest text that they start with, and nothing is reported. -/
theorem load_decodes (v : View) (path place : String) (p : Path) (content : ByteArray)
    (hfind : find v path place = .ok (p, content)) :
    (∀ text : String, content = text.toUTF8 →
      (∃ unified : String, Text.Unified text.toList unified.toList ∧
        load v path place = Workflow.compile unified) ∧
      ∀ fault, (load v path place).result = .error fault → ¬ IsUnreadable fault) ∧
    (¬ Text.IsText content →
      ∃ n, Text.IsLongestText content n ∧
        load v path place =
          ⟨.error (.ofCause (.fileUnreadable p.render (notUtf8Reason n))), []⟩) := by
  constructor
  · rintro text rfl
    have hload : load v path place = _ := load_of_textOf hfind rfl (textOf_toUTF8 p text)
    refine ⟨⟨_, ?_, hload⟩, fun fault hfault => ?_⟩
    · rw [String.toList_ofList]
      exact Text.unified_unifyLineEndings text.toList
    · rw [hload] at hfault
      exact not_isUnreadable_of_compile hfault
  · intro hnot
    obtain ⟨n, hn, hdecode⟩ := Text.exists_decodeUtf8_error hnot
    refine ⟨n, hn, load_of_textOf_error hfind ?_⟩
    rw [textOf, hdecode]

/-- A letter, and the first byte of a character that has two. -/
def cutShort : ByteArray := ⟨#[0x61, 0xC3]⟩

theorem isLongestText_cutShort : Text.IsLongestText cutShort 1 := by
  have hletter : cutShort.utf8DecodeChar? 0 = some 'a' := by decide
  have hcut : cutShort.utf8DecodeChar? 1 = none := by decide
  have hend : Text.validUntil cutShort 0 = 1 := by
    rw [Text.validUntil, if_pos (by decide), hletter]
    simp only
    rw [show 0 + 'a'.utf8Size = 1 from rfl, Text.validUntil, if_pos (by decide), hcut]
  exact hend ▸ Text.isLongestText_validUntil cutShort

theorem load_decodes_cutShort :
    ¬ Text.IsText cutShort ∧
    load (soleFile cutShort) "ci" "" =
      ⟨.error (.ofCause (.fileUnreadable "ci" "not valid UTF-8 at byte 1")), []⟩ ∧
    ∃ unified : String, Text.Unified "a\r\n\r".toList unified.toList ∧
      load (soleFile "a\r\n\r".toUTF8) "ci" "" = Workflow.compile unified := by
  have hnot : ¬ Text.IsText cutShort := by
    intro htext
    have hboth : Text.IsText (cutShort.extract 0 2) := htext
    have hle := isLongestText_cutShort.longest 2 (by decide) hboth
    omega
  obtain ⟨-, hrefused⟩ := load_decodes _ _ _ _ _ (find_soleFile cutShort)
  obtain ⟨htext, -⟩ := load_decodes _ _ _ _ _ (find_soleFile "a\r\n\r".toUTF8)
  obtain ⟨n, hn, hload⟩ := hrefused hnot
  obtain rfl : n = 1 := hn.unique isLongestText_cutShort
  exact ⟨hnot, hload, (htext _ rfl).1⟩

end WorkflowFile

end ContainerFlow
