/-
ContainerFlow.Proofs.Policy — what a review finds, and whom it tells.

A pass through a workflow keeps how bad things are and tells of each
violation as it comes to it.  What comes of that is known from the list of
what it finds alone (`Finds`), and so is what comes of a review, which
makes one pass after the other (`foldl_makePass`, `reviewReporting_eq`).
So a workflow passes exactly when nothing is found
(`passes_review_iff`), which is then put in terms of what the actions
declare: `namesFound_eq_nil_iff` and its like.
-/
import Mathlib.Data.Finset.Card
import Mathlib.Data.Finset.Dedup
import ContainerFlow.Policy

namespace ContainerFlow.Policy

variable {σ τ : Type} {w : Workflow}

/-! ## Severities -/

/-- How bad it is to have found these violations. -/
def severityOf (vs : List Violation) : Severity := if vs = [] then .allow else .error

@[simp] theorem Severity.max_allow (s : Severity) : s.max .allow = s := by
  cases s <;> rfl

theorem severityOf_append (first second : List Violation) :
    severityOf (first ++ second) = (severityOf first).max (severityOf second) := by
  cases first <;> simp [severityOf, Severity.max]

theorem Severity.max_assoc (a b c : Severity) : (a.max b).max c = a.max (b.max c) := by
  cases a <;> rfl

/-- The review that has found these violations. -/
def Review.ofViolations (vs : List Violation) : Review := ⟨severityOf vs, vs⟩

@[simp] theorem Review.violations_ofViolations (vs : List Violation) :
    (ofViolations vs).violations = vs := rfl

theorem Review.passes_ofViolations_iff (vs : List Violation) :
    (ofViolations vs).passes ↔ vs = [] := by
  cases vs <;> simp [ofViolations, severityOf, passes]

/-! ## Passes -/

/-- Violations that are found one after the other make a pass as bad as there are any, and are told
in this order. -/
theorem foldl_violate (report : τ → Violation → τ) (vs : List Violation) (s : Standing τ) :
    vs.foldl (violate report) s = (s.1.max (severityOf vs), vs.foldl report s.2) := by
  induction vs generalizing s with
  | nil => simp [severityOf]
  | cons v rest ih =>
    have hworst : (s.1.max .error).max (severityOf rest) = s.1.max (severityOf (v :: rest)) := by
      rw [Severity.max_assoc]
      rfl
    rw [List.foldl_cons, ih, violate, hworst, List.foldl_cons]

/-- To look at things and report some is to report those. -/
theorem foldl_if {α : Type} (report : τ → Violation → τ) (isBad : α → Bool)
    (violation : α → Violation) (items : List α) (s : Standing τ) :
    items.foldl (fun s x => if isBad x then violate report s (violation x) else s) s =
      ((items.filter isBad).map violation).foldl (violate report) s := by
  rw [List.foldl_map, List.foldl_filter]

/-- A pass finds these violations, whoever is told: it tells of them one after the other, and is as
bad as there are any. -/
def Finds (pass : Pass) (found : Workflow → List Violation) : Prop :=
  ∀ (τ : Type) (report : τ → Violation → τ) (w : Workflow) (start : τ),
    pass τ report w start = (severityOf (found w), (found w).foldl report start)

/-- The reserved names of variables, by action. -/
def namesFound (w : Workflow) : List Violation :=
  w.actions.flatMap fun a => (a.env.names.filter isReserved).map (.reservedName a.name)

theorem finds_passNames : Finds passNames namesFound := by
  intro τ report w start
  rw [passNames, namesFound]
  simp only [foldl_if]
  rw [← List.foldl_flatMap, foldl_violate]
  rfl

/-- The number of secrets, if there are too many. -/
def secretsFound (w : Workflow) : List Violation :=
  if (secrets w).length > secretLimit then [.secretBudget (secrets w).length] else []

theorem finds_passSecrets : Finds passSecrets secretsFound := by
  intro τ report w start
  by_cases hmany : (secrets w).length > secretLimit
  · rw [passSecrets, secretsFound, if_pos hmany, if_pos hmany]
    rfl
  · rw [passSecrets, secretsFound, if_neg hmany, if_neg hmany]
    rfl

/-- The lists of words that are declared and empty, by action. -/
def wordsFound (w : Workflow) : List Violation :=
  w.actions.flatMap fun a =>
    ((wordLists a).filter fun l => l.2 = some []).map fun l => .emptyWords a.name l.1

theorem finds_passWords : Finds passWords wordsFound := by
  intro τ report w start
  rw [passWords, wordsFound]
  have hinner (a : Action) (s : Standing τ) :
      (wordLists a).foldl (fun s l =>
          if l.2 = some [] then violate report s (.emptyWords a.name l.1) else s) s =
        (((wordLists a).filter fun l => l.2 = some []).map
          fun l => .emptyWords a.name l.1).foldl (violate report) s := by
    rw [← foldl_if]
    simp
  simp only [hinner]
  rw [← List.foldl_flatMap, foldl_violate]
  rfl

/-! ## Reviews -/

theorem foldl_collect (tell : Audience σ → Violation → Audience σ) (vs : List Violation)
    (c : Collection σ) :
    vs.foldl (collect tell) c = ⟨c.violations ++ vs, vs.foldl tell c.audience⟩ := by
  induction vs generalizing c with
  | nil => simp
  | cons v rest ih => simp [ih, collect]

/-- One pass after the other finds what each of them does. -/
theorem foldl_makePass {finders : List (Pass × (Workflow → List Violation))}
    (h : ∀ f ∈ finders, Finds f.1 f.2) (tell : Audience σ → Violation → Audience σ) (w : Workflow)
    (s : Standing (Collection σ)) :
    (finders.map Prod.fst).foldl (makePass tell w) s =
      (s.1.max (severityOf (finders.flatMap fun f => f.2 w)),
        (finders.flatMap fun f => f.2 w).foldl (collect tell) s.2) := by
  induction finders generalizing s with
  | nil => simp [severityOf]
  | cons f rest ih =>
    obtain ⟨hf, hrest⟩ := List.forall_mem_cons.mp h
    rw [List.map_cons, List.foldl_cons, ih hrest, makePass, hf, List.flatMap_cons,
      severityOf_append, List.foldl_append, Severity.max_assoc]

/-- Everything that the passes find. -/
def allFound (w : Workflow) : List Violation := namesFound w ++ secretsFound w ++ wordsFound w

/-- A review finds what its passes find, and tells of that. -/
theorem reviewReporting_eq (sink? : Option (Sink σ)) (start : σ) (w : Workflow) :
    reviewReporting sink? start w =
      (.ofViolations (allFound w),
        (allFound w).foldl (Audience.teller sink? start) ⟨start, []⟩) := by
  have hfinds : ∀ f ∈ [(passNames, namesFound), (passSecrets, secretsFound),
      (passWords, wordsFound)], Finds f.1 f.2 := by
    simp [finds_passNames, finds_passSecrets, finds_passWords]
  have hpasses := foldl_makePass hfinds (Audience.teller sink? start) w (.allow, ⟨[], ⟨start, []⟩⟩)
  have hall : ([(passNames, namesFound), (passSecrets, secretsFound),
      (passWords, wordsFound)].flatMap fun f => f.2 w) = allFound w := by
    simp [allFound]
  rw [hall, foldl_collect] at hpasses
  simp only [reviewReporting]
  rw [show passes = [(passNames, namesFound), (passSecrets, secretsFound),
    (passWords, wordsFound)].map Prod.fst from rfl, hpasses]
  rfl

theorem review_eq (w : Workflow) : review w = .ofViolations (allFound w) := by
  rw [review, reviewReporting_eq]

theorem passes_review_iff (w : Workflow) : (review w).passes ↔ allFound w = [] := by
  rw [review_eq, Review.passes_ofViolations_iff]

theorem allFound_eq_nil_iff :
    allFound w = [] ↔ namesFound w = [] ∧ secretsFound w = [] ∧ wordsFound w = [] := by
  rw [allFound, List.append_eq_nil_iff, List.append_eq_nil_iff, and_assoc]

/-- A review that makes one pass finds what this finds. -/
theorem reviewPass_eq {pass : Pass} {found : Workflow → List Violation} (h : Finds pass found)
    (w : Workflow) : reviewPass pass w = .ofViolations (found w) := by
  have hpass := h (List Violation) (fun seen v => seen ++ [v]) w []
  rw [List.foldl_append_eq_append, ← List.flatMap_def, List.flatMap_singleton',
    List.nil_append] at hpass
  rw [reviewPass, hpass]
  rfl

/-! ## The rules -/

theorem isReserved_iff {name : String} : isReserved name ↔ "GITHUB_".toList <+: name.toList :=
  List.isPrefixOf_iff_prefix

theorem namesFound_eq_nil_iff :
    namesFound w = [] ↔
      ∀ a ∈ w.actions, ∀ name ∈ a.env.names, ¬ "GITHUB_".toList <+: name.toList := by
  simp only [← isReserved_iff]
  simp [namesFound, List.flatMap_eq_nil_iff, List.filter_eq_nil_iff]

/-- Listing each item once is removing the duplicates. -/
theorem distinct_eq_dedup (names : List String) : distinct names = names.dedup := by
  induction names with
  | nil => rfl
  | cons name rest ih =>
    by_cases h : name ∈ rest
    · rw [distinct, if_pos h, List.dedup_cons_of_mem h, ih]
    · rw [distinct, if_neg h, List.dedup_cons_of_notMem h, ih]

theorem length_secrets (w : Workflow) :
    (secrets w).length = (w.actions.flatMap (·.secrets)).toFinset.card := by
  rw [secrets, distinct_eq_dedup, List.card_toFinset]

theorem secretsFound_eq_nil_iff :
    secretsFound w = [] ↔ (w.actions.flatMap (·.secrets)).toFinset.card ≤ 100 := by
  have hlimit : secretsFound w = [] ↔ (secrets w).length ≤ secretLimit := by
    simp [secretsFound]
  rw [hlimit, length_secrets, secretLimit]

theorem wordsFound_eq_nil_iff :
    wordsFound w = [] ↔ ∀ a ∈ w.actions, a.runs ≠ some [] ∧ a.args ≠ some [] := by
  simp [wordsFound, wordLists, List.flatMap_eq_nil_iff]

end ContainerFlow.Policy
