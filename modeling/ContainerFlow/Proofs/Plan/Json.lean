/-
ContainerFlow.Proofs.Plan.Json — the plan for programs can be read back.

`Plan.ofTree?` reads a plan from what a document says: members by their
names and no others, variables in the order in which they stand, and
words that may be missing so that `null` is not taken for a list without
words.  It gives back every plan that is written (`ofTree?_toJson`).
As what is printed is a document and says one thing only, what is
printed for two plans is never the same.

The main statement, `json_determines_plan`, puts this together for every
workflow whose references are in range, which every compiled one is
(`Proofs.Compile`), and for any numbers of its actions, in any order,
some of them repeated or left out.
-/
import Mathlib
import ContainerFlow.CommandLine.Outcome
import ContainerFlow.Proofs.Faults
import ContainerFlow.Proofs.Json.Writing

namespace ContainerFlow

/-! ## Reading values -/

/-- A list whose items are read back one by one is read back. -/
theorem mapM_map_eq_some {α β : Type} (write : α → β) (read? : β → Option α)
    (h : ∀ a, read? (write a) = some a) (as : List α) : (as.map write).mapM read? = some as := by
  induction as with
  | nil => rfl
  | cons a rest ih => rw [List.map_cons, List.mapM_cons, h, ih]; rfl

namespace Json

namespace Tree

/-- Whether an object has members with these names, in some order, and no others. -/
def hasJust (names : List String) : Tree → Bool
  | .object members => (members.map Prod.fst).isPerm names
  | _ => false

/-- The member of an object with a name. -/
def member? (name : String) : Tree → Option Tree
  | .object members => members.lookup name
  | _ => none

/-- The number that a literal of nothing but digits stands for. -/
def nat? : Tree → Option Nat
  | .number literal =>
    if literal.all Char.isDigit then some (Nat.ofDigitChars 10 literal 0) else none
  | _ => none

def text? : Tree → Option String
  | .string text => some text
  | _ => none

def items? : Tree → Option (List Tree)
  | .array items => some items
  | _ => none

/-- The texts of an array of strings. -/
def texts? (t : Tree) : Option (List String) := do (← t.items?).mapM text?

/-- The texts of an array of strings, which may be missing. -/
def words? : Tree → Option (Option (List String))
  | .null => some none
  | t => t.texts?.map some

/-- A name with the text of a string. -/
def binding? (member : String × Tree) : Option (String × String) :=
  member.2.text?.map (member.1, ·)

/-- The names of an object whose members are strings, with their texts.  No name may stand
twice. -/
def bindings? : Tree → Option Bindings
  | .object members => do
    let entries ← members.mapM binding?
    if distinct : (entries.map Prod.fst).Nodup then return ⟨entries, distinct⟩ else none
  | _ => none

end Tree

open Json.Tree

theorem hasJust_object (members : List (String × Json)) (names : List String) :
    (object members).tree.hasJust names ↔ (members.map Prod.fst).Perm names := by
  rw [tree, namedTreesOf_eq_map, hasJust, List.isPerm_iff, List.map_map]
  rfl

theorem member?_object (members : List (String × Json)) (name : String) :
    (object members).tree.member? name = (members.lookup name).map tree := by
  rw [tree, namedTreesOf_eq_map, member?]
  induction members with
  | nil => rfl
  | cons member rest ih =>
    rw [List.map_cons, List.lookup_cons, List.lookup_cons, ih]
    cases name == member.1 <;> rfl

@[simp] theorem text?_string (text : String) : (string text).tree.text? = some text := rfl

@[simp] theorem nat?_number (n : Nat) : (number n).tree.nat? = some n := by
  have hdigits : (Nat.toDigits 10 n).all Char.isDigit := by
    rw [List.all_eq_true]
    intro c hc
    exact Nat.isDigit_of_mem_toDigits (by decide) (by decide) hc
  rw [tree, nat?, if_pos hdigits, Nat.ofDigitChars_ten_toDigits]

@[simp] theorem items?_array (items : List Json) :
    (array items).tree.items? = some (items.map tree) := by
  rw [tree, treesOf_eq_map, items?]

@[simp] theorem texts?_strings (items : List String) :
    (strings items).tree.texts? = some items := by
  rw [texts?, strings, items?_array, List.map_map]
  exact mapM_map_eq_some (tree ∘ string) text? (fun _ => rfl) items

@[simp] theorem bindings?_object (b : Bindings) :
    (object (b.entries.map fun (name, text) => (name, .string text))).tree.bindings? = some b := by
  have hentries := mapM_map_eq_some (fun e : String × String => (e.1, Tree.string e.2)) binding?
    (fun _ => rfl) b.entries
  rw [tree, namedTreesOf_eq_map, List.map_map, bindings?]
  exact Option.bind_eq_some_iff.mpr ⟨b.entries, hentries, dif_pos b.distinct⟩

end Json

theorem Workflow.getElem?_of_action_eq_ok {w : Workflow} {id : Nat} {a : Action}
    (h : w.action id = .ok a) : w.actions[id]? = some a := by
  unfold action at h
  split at h
  · next ha =>
    cases h
    exact ha
  · cases h

namespace Plan

open Json.Tree

@[simp] theorem words?_wordsJson (words : Option (List String)) :
    (wordsJson words).tree.words? = some words := by
  cases words with
  | none => rfl
  | some items => exact congrArg (Option.map some) (Json.texts?_strings items)

/-! ## Reading plans -/

/-- The entry that an object says. -/
def Entry.ofTree? (t : Json.Tree) : Option Entry := do
  guard (t.hasJust ["id", "name", "uses", "needs", "runs", "args", "env", "secrets"])
  return {
    id := ← (← t.member? "id").nat?
    name := ← (← t.member? "name").text?
    uses := ← (← t.member? "uses").text?
    needs := ← (← t.member? "needs").texts?
    runs := ← (← t.member? "runs").words?
    args := ← (← t.member? "args").words?
    env := ← (← t.member? "env").bindings?
    secrets := ← (← t.member? "secrets").texts? }

/-- The plan that an object says. -/
def ofTree? (t : Json.Tree) : Option Plan := do
  guard (t.hasJust ["workflow", "on", "resolves", "order"])
  return {
    workflow := ← (← t.member? "workflow").text?
    trigger := ← (← t.member? "on").text?
    resolves := ← (← t.member? "resolves").texts?
    entries := ← (← (← t.member? "order").items?).mapM Entry.ofTree? }

theorem Entry.ofTree?_toJson (e : Entry) : Entry.ofTree? e.toJson.tree = some e := by
  simp [Entry.ofTree?, Entry.toJson, Json.hasJust_object, Json.member?_object, List.lookup]

theorem ofTree?_toJson (p : Plan) : ofTree? p.toJson.tree = some p := by
  have hentries : (p.entries.map (Json.tree ∘ Entry.toJson)).mapM Entry.ofTree? = some p.entries :=
    mapM_map_eq_some _ _ Entry.ofTree?_toJson p.entries
  simp [ofTree?, toJson, Json.hasJust_object, Json.member?_object, List.lookup, hentries]

/-- What is printed for two plans is not the same. -/
theorem eq_of_render_toJson_eq {p q : Plan} (h : q.toJson.render = p.toJson.render) : q = p := by
  have hq := Json.writesDocument_render q.toJson
  rw [h] at hq
  have htree := (Json.writesDocument_render p.toJson).unique hq
  rw [← Option.some_inj, ← ofTree?_toJson, ← ofTree?_toJson, htree]

/-! ## What plans show -/

variable {w : Workflow} {ids : List Nat}

/-- The entry shows the action with a number: all that the action declares, and the names of what
it needs. -/
structure Entry.Shows (w : Workflow) (id : Nat) (e : Entry) (a : Action) : Prop where
  action : w.actions[id]? = some a
  id : e.id = id
  name : e.name = a.name
  uses : e.uses = a.uses
  needs : List.Forall₂ w.Named a.needs e.needs
  runs : e.runs = a.runs
  args : e.args = a.args
  env : e.env = a.env
  secrets : e.secrets = a.secrets

/-- The plan shows the workflow, and the actions with these numbers in this order. -/
structure Shows (p : Plan) (w : Workflow) (ids : List Nat) : Prop where
  workflow : p.workflow = w.name
  trigger : p.trigger = w.trigger.name
  resolves : List.Forall₂ w.Named w.depends p.resolves
  entries : List.Forall₂ (fun id e => ∃ a, Entry.Shows w id e a) ids p.entries

theorem Entry.shows_of_ofId {id : Nat} {e : Entry} (h : Entry.ofId w id = .ok e) :
    ∃ a, Entry.Shows w id e a := by
  obtain ⟨a, ha, h⟩ := bind_eq_ok_iff.mp h
  obtain ⟨needs, hneeds, h⟩ := bind_eq_ok_iff.mp h
  cases h
  exact ⟨a, Workflow.getElem?_of_action_eq_ok ha, rfl, rfl, rfl,
    Workflow.namesOf_eq_ok_iff.mp hneeds, rfl, rfl, rfl, rfl⟩

theorem forall₂_of_entriesOf {entries : List Entry} (h : entriesOf w ids = .ok entries) :
    List.Forall₂ (fun id e => Entry.ofId w id = .ok e) ids entries := by
  induction ids generalizing entries with
  | nil =>
    cases h
    exact .nil
  | cons id rest ih =>
    obtain ⟨e, he, h⟩ := bind_eq_ok_iff.mp h
    obtain ⟨later, hlater, h⟩ := bind_eq_ok_iff.mp h
    cases h
    exact .cons he (ih hlater)

theorem shows_of_ofOrder {p : Plan} (h : ofOrder w ids = .ok p) : p.Shows w ids := by
  obtain ⟨entries, hentries, h⟩ := bind_eq_ok_iff.mp h
  obtain ⟨resolves, hresolves, h⟩ := bind_eq_ok_iff.mp h
  cases h
  exact ⟨rfl, rfl, Workflow.namesOf_eq_ok_iff.mp hresolves,
    (forall₂_of_entriesOf hentries).imp fun _ _ => Entry.shows_of_ofId⟩

end Plan

namespace CommandLine

variable {w : Workflow} {ids : List Nat}

/-! ## What is printed -/

theorem toList_stdoutText_info (style : Style) (text : String) :
    (stdoutText style [.info text]).toList = text.toList ++ ['\n'] := by
  simp [stdoutText, Message.stdout, Message.line]

theorem showPlan_json {p : Plan} (h : Plan.ofOrder w ids = .ok p) :
    showPlan w ids true = .ok [.info p.toJson.render] :=
  bind_eq_ok_iff.mpr ⟨p, h, rfl⟩

theorem exists_of_showPlan_json {messages : List Message}
    (h : showPlan w ids true = .ok messages) :
    ∃ p, Plan.ofOrder w ids = .ok p ∧ messages = [.info p.toJson.render] := by
  obtain ⟨p, hp, h⟩ := bind_eq_ok_iff.mp h
  cases h
  exact ⟨p, hp, rfl⟩

/-- Texts with quotes, backslashes, control characters and characters beyond U+FFFF, and words that
are missing, none and empty. -/
def unusualWorkflow : Workflow where
  name := "a \x22quoted\x22 \\ name"
  trigger := .push
  depends := [1, 1]
  actions :=
    [⟨"bell\x07", "docker://\u00e9", some [], none, [], .empty, []⟩,
      ⟨"null", "docker://\u2028", none, some ["", "\n"], [0, 2, 0],
        .ofList [("B\t", "😀"), ("A", "\x7f/")], ["\x0c", "K"]⟩,
      ⟨"", "./", some ["null", "[]"], some [], [], .empty, []⟩]

/-! ## Main result -/

/-- **The JSON plan determines the plan**: for any numbers of actions there is a plan, which shows
the workflow and these actions, and what is printed of it for programs is a JSON document that says
one thing only, from which the plan is read back.  So what prints the same text has the same plan,
whatever workflow and numbers it is printed for. -/
theorem json_determines_plan (style : Style) (h : w.InRange) (hids : ∀ id ∈ ids, id < w.size) :
    ∃ p messages said, Plan.ofOrder w ids = .ok p ∧ p.Shows w ids ∧
      showPlan w ids true = .ok messages ∧
      (∀ t, Json.WritesDocument (stdoutText style messages).toList t ↔ t = said) ∧
      Plan.ofTree? said = some p ∧
      ∀ w' ids' messages', showPlan w' ids' true = .ok messages' →
        stdoutText style messages' = stdoutText style messages → Plan.ofOrder w' ids' = .ok p := by
  obtain ⟨p, hp⟩ := Plan.exists_ofOrder h hids
  have hdocument : Json.WritesDocument (stdoutText style [.info p.toJson.render]).toList
      p.toJson.tree := by
    rw [toList_stdoutText_info]
    -- The end of the line is a blank behind the document.
    exact (Json.writesDocument_render p.toJson).append_blanks (by simp [Json.Blanks, Json.isBlank])
  refine ⟨p, _, p.toJson.tree, hp, Plan.shows_of_ofOrder hp, showPlan_json hp, fun t => ?_,
    Plan.ofTree?_toJson p, fun w' ids' messages' hshown hsame => ?_⟩
  · exact ⟨hdocument.unique, fun heq => heq ▸ hdocument⟩
  · obtain ⟨q, hq, rfl⟩ := exists_of_showPlan_json hshown
    have htexts := congrArg String.toList hsame
    rw [toList_stdoutText_info, toList_stdoutText_info, List.append_left_inj,
      String.toList_inj] at htexts
    rw [hq, Plan.eq_of_render_toJson_eq htexts]

/-- The order names one action twice and another not at all. -/
theorem json_determines_plan_unusual :
    unusualWorkflow.InRange ∧ (∀ id ∈ [1, 2, 1], id < unusualWorkflow.size) ∧
    ∃ p messages said, Plan.ofOrder unusualWorkflow [1, 2, 1] = .ok p ∧
      p.Shows unusualWorkflow [1, 2, 1] ∧ showPlan unusualWorkflow [1, 2, 1] true = .ok messages ∧
      (∀ t, Json.WritesDocument (stdoutText ⟨false, "", ""⟩ messages).toList t ↔ t = said) ∧
      Plan.ofTree? said = some p ∧
      ∀ w' ids' messages', showPlan w' ids' true = .ok messages' →
        stdoutText ⟨false, "", ""⟩ messages' = stdoutText ⟨false, "", ""⟩ messages →
          Plan.ofOrder w' ids' = .ok p := by
  have h : unusualWorkflow.InRange := ⟨by decide, by decide⟩
  have hids : ∀ id ∈ [1, 2, 1], id < unusualWorkflow.size := by decide
  exact ⟨h, hids, json_determines_plan ⟨false, "", ""⟩ h hids⟩

end CommandLine

end ContainerFlow
