/-
ContainerFlow.Proofs.Policy.Violations — what a review lists, and whom it
tells.

`violations` is read off what the actions of a workflow declare: their
variables and their lists of words, one after the other, and the set of
their secrets.  A review lists just these (`allFound_eq`), tells of them
one by one and in this order (`heard_eq`), and refuses the workflow when
there are any (`check_ofViolations`).

A sink is told if it counts when the review starts; one that does not is
passed over, and the console hears in its place
(`told_empty_sink`).

A text is reviewed last, so nothing is reported of one that does not get
so far (`compileReporting_eq`).  The main statement is
`reports_all_violations`.
-/
import Mathlib
import ContainerFlow.Proofs.Compile
import ContainerFlow.Proofs.Policy

namespace ContainerFlow

namespace Policy

/-! ## Violations -/

/-- The variables of all actions in order, each with the name of its action. -/
def variablesOf (w : Workflow) : List (String × String) :=
  w.actions.flatMap fun a => a.env.names.map fun name => (a.name, name)

/-- The lists of words of all actions in order, `runs` before `args`, each with the name of its
action. -/
def wordListsOf (w : Workflow) : List (String × WordList × Option (List String)) :=
  w.actions.flatMap fun a => [(a.name, .runs, a.runs), (a.name, .args, a.args)]

/-- How many different secrets the actions use together. -/
def secretCount (w : Workflow) : Nat := (w.actions.flatMap (·.secrets)).toFinset.card

/-- Everything in which a workflow breaks a rule: reserved names, too many secrets, and lists of
words that are declared and empty. -/
def violations (w : Workflow) : List Violation :=
  ((variablesOf w).filter fun v => "GITHUB_".toList <+: v.2.toList).map
      (fun v => .reservedName v.1 v.2) ++
    (if 100 < secretCount w then [.secretBudget (secretCount w)] else []) ++
    ((wordListsOf w).filter fun l => l.2.2 = some []).map fun l => .emptyWords l.1 l.2.1

variable (w : Workflow)

theorem namesFound_eq :
    namesFound w =
      ((variablesOf w).filter fun v => "GITHUB_".toList <+: v.2.toList).map
        fun v => .reservedName v.1 v.2 := by
  have hreserved : (fun name => decide ("GITHUB_".toList <+: name.toList)) = isReserved := by
    funext name
    rw [Bool.eq_iff_iff, decide_eq_true_iff, isReserved_iff]
  rw [namesFound, variablesOf, List.filter_flatMap, List.map_flatMap]
  refine congrArg (w.actions.flatMap ·) (funext fun a => ?_)
  rw [List.filter_map, List.map_map, ← hreserved]
  rfl

theorem secretsFound_eq :
    secretsFound w = if 100 < secretCount w then [.secretBudget (secretCount w)] else [] := by
  rw [secretsFound, length_secrets]
  rfl

theorem wordsFound_eq :
    wordsFound w =
      ((wordListsOf w).filter fun l => l.2.2 = some []).map fun l => .emptyWords l.1 l.2.1 := by
  rw [wordsFound, wordListsOf, List.filter_flatMap, List.map_flatMap]
  refine congrArg (w.actions.flatMap ·) (funext fun a => ?_)
  have hlists : [(a.name, WordList.runs, a.runs), (a.name, .args, a.args)] =
      (wordLists a).map fun l => (a.name, l) := rfl
  rw [hlists, List.filter_map, List.map_map]
  rfl

/-- What is found is what breaks the rules, and nothing else. -/
theorem allFound_eq : allFound w = violations w := by
  rw [allFound, namesFound_eq, secretsFound_eq, wordsFound_eq, violations]

/-! ## Reports -/

section
variable {σ : Type}

theorem foldl_tellSink (sink : Sink σ) (vs : List Violation) (a : Audience σ) :
    vs.foldl (Audience.tellSink sink) a = { a with sink := vs.foldl sink.hear a.sink } := by
  induction vs generalizing a with
  | nil => rfl
  | cons v rest ih => rw [List.foldl_cons, ih, Audience.tellSink, List.foldl_cons]

theorem foldl_tellConsole (vs : List Violation) (a : Audience σ) :
    vs.foldl Audience.tellConsole a = { a with console := a.console ++ vs } := by
  induction vs generalizing a with
  | nil => simp
  | cons v rest ih => simp [ih, Audience.tellConsole]

/-- What those become who hear of violations: the sink that is given hears them all if it counts,
and the console does otherwise. -/
def heard (sink? : Option (Sink σ)) (start : σ) (vs : List Violation) : Audience σ :=
  match sink? with
  | some sink => if sink.counts start then ⟨vs.foldl sink.hear start, []⟩ else ⟨start, vs⟩
  | none => ⟨start, vs⟩

theorem heard_eq (sink? : Option (Sink σ)) (start : σ) (vs : List Violation) :
    vs.foldl (Audience.teller sink? start) ⟨start, []⟩ = heard sink? start vs := by
  cases sink? with
  | none => exact foldl_tellConsole vs ⟨start, []⟩
  | some sink =>
    unfold Audience.teller heard
    cases hcounts : sink.counts start with
    | true =>
      simp only [hcounts, if_true]
      exact foldl_tellSink sink vs ⟨start, []⟩
    | false =>
      simp only [hcounts, Bool.false_eq_true, if_false]
      exact foldl_tellConsole vs ⟨start, []⟩

theorem reviewReporting_eq_heard (sink? : Option (Sink σ)) (start : σ) :
    reviewReporting sink? start w =
      (.ofViolations (violations w), heard sink? start (violations w)) := by
  rw [reviewReporting_eq, heard_eq, allFound_eq]

end

theorem severity_ofViolations (vs : List Violation) :
    (Review.ofViolations vs).severity = .error ↔ vs ≠ [] := by
  cases vs <;> simp [Review.ofViolations, severityOf]

theorem check_ofViolations (vs : List Violation) :
    (Review.ofViolations vs).check =
      if vs = [] then .ok () else .error (.ofCause (.rejected vs)) := by
  cases vs <;> rfl

end Policy

open Policy (violations)

namespace Workflow

/-- A text is refused for what it is not, or for what its workflow breaks, and only of the latter
there are reports. -/
theorem compileReporting_eq {σ : Type} (sink? : Option (Policy.Sink σ)) (start : σ)
    (text : String) :
    compileReporting sink? start text = match ofText text with
      | .error fault => (.error fault, ⟨start, []⟩)
      | .ok w =>
        (if violations w = [] then .ok w else .error (.ofCause (.rejected (violations w))),
          Policy.heard sink? start (violations w)) := by
  rw [compileReporting]
  cases ofText text with
  | error fault => rfl
  | ok w =>
    simp only [Policy.reviewReporting_eq_heard, Policy.check_ofViolations]
    split <;> rfl

end Workflow

namespace Policy

/-! ## Main result -/

/-- **A review lists all violations, each once and in order**, whoever is given to be told of them.
The sink hears the same if it counts, and otherwise the console; the workflow is refused just when
there are any, for all of them together and with their number; and of a text that is refused before
its review nobody hears anything. -/
theorem reports_all_violations {σ : Type} (sink? : Option (Sink σ)) (start : σ) (w : Workflow) :
    let review := (reviewReporting sink? start w).1
    let audience := (reviewReporting sink? start w).2
    review.violations = violations w ∧
    (reviewNames w).violations ++ (reviewSecrets w).violations ++ (reviewWords w).violations =
      violations w ∧
    (review.severity = .error ↔ violations w ≠ []) ∧
    audience = (match sink? with
      | some sink =>
        if sink.counts start then ⟨(violations w).foldl sink.hear start, []⟩
        else ⟨start, violations w⟩
      | none => ⟨start, violations w⟩) ∧
    (∀ fault, review.check = .error fault ↔
      violations w ≠ [] ∧ fault = .ofCause (.rejected (violations w))) ∧
    (Cause.rejected (violations w)).details = [("violations", .count (violations w).length)] ∧
    ∀ text, Workflow.compileReporting sink? start text = match Workflow.ofText text with
      | .error fault => (.error fault, ⟨start, []⟩)
      | .ok w =>
        (if violations w = [] then .ok w else .error (.ofCause (.rejected (violations w))),
          (reviewReporting sink? start w).2) := by
  intro review audience
  have hreview : review = .ofViolations (violations w) :=
    congrArg Prod.fst (reviewReporting_eq_heard w sink? start)
  refine ⟨by rw [hreview]; rfl, ?_, ?_, ?_, fun fault => ?_, rfl, fun text => ?_⟩
  · rw [reviewNames, reviewPass_eq finds_passNames, reviewSecrets, reviewPass_eq finds_passSecrets,
      reviewWords, reviewPass_eq finds_passWords, ← allFound_eq]
    rfl
  · rw [hreview, severity_ofViolations]
  · show (reviewReporting sink? start w).2 = heard sink? start (violations w)
    rw [reviewReporting_eq_heard]
  · rw [hreview, check_ofViolations]
    by_cases hnone : violations w = []
    · simp [hnone]
    · simp [hnone, eq_comm]
  · rw [Workflow.compileReporting_eq]
    simp only [reviewReporting_eq_heard]

/-- A workflow with a variable that is reserved and one that only looks like it, and with a list
that is left empty. -/
def careless : Workflow where
  name := "w"
  trigger := .push
  depends := []
  actions :=
    [⟨"a", "docker://i", none, some [], [], .ofList [("GITHUB_X", "1")], []⟩,
      ⟨"b", "docker://i", some ["x"], none, [], .ofList [("github_x", "1")], ["s"]⟩]

/-- Somebody who keeps a list, and counts as nobody while this is empty. -/
def listSink : Sink (List Violation) where
  hear seen v := seen ++ [v]
  counts seen := !seen.isEmpty

/-- An empty list is not told of anything: the console is, although a sink is given. -/
theorem told_empty_sink :
    reviewReporting (some listSink) [] careless =
      (⟨.error, [.reservedName "a" "GITHUB_X", .emptyWords "a" .args]⟩,
        ⟨[], [.reservedName "a" "GITHUB_X", .emptyWords "a" .args]⟩) := by
  decide

end Policy

end ContainerFlow
