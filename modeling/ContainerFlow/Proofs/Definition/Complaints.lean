/-
ContainerFlow.Proofs.Definition.Complaints — which blocks define
something, and what the others are refused for.

`Block.complaints` is all that is wrong with a block, in the order in
which it counts: keys that stand there again and keys that are missing,
then values in the order of the table of keys, and last keys that are
unknown.  A block is well-formed when there is none
(`complaints_eq_nil_iff`).

The checks of a block and the readers of its values make these complaints
in this order (`failsAsFirst_checked`, `failsAsFirst_optional`).  That a
value is looked for only when no key stands there again matters: the
complaints are about every pair with the key, and the readers look at the
first (`mistakes_of_pair?`).

The main statement is `reads_wellFormed`.
-/
import Mathlib
import ContainerFlow.Proofs.Complaints
import ContainerFlow.Proofs.Definition.Keys

namespace ContainerFlow

/-! ## Complaints -/

/-- A pair whose key stands before it too. -/
def Pair.repeats (before : List Pair) (pair : Pair) : List Fault :=
  if pair.key ∈ before.map (·.key) then [.atPosition (.duplicateKey pair.key) pair.position] else []

namespace Block

/-- Keys that have to be there and are not, in the order of the table. -/
def gaps (b : Block) : List Fault :=
  (b.keySpecs.filter fun spec => spec.required ∧ spec.key ∉ b.pairs.map (·.key)).map fun spec =>
    .atPosition (.missingKey spec.key) b.position

/-- Values of a kind that their key does not take. -/
def mistakes (b : Block) (spec : KeySpec) : List Fault :=
  (b.pairs.filter fun pair => pair.key = spec.key ∧ pair.value.kind ∉ spec.kinds).map fun pair =>
    .atPosition (.typeMismatch spec.words pair.value.kind.name) pair.position

/-- Pairs whose key is not in the table. -/
def strangers (b : Block) : List Fault :=
  (b.pairs.filter fun pair => pair.key ∉ b.keySpecs.map (·.key)).map fun pair =>
    .atPosition (.unexpectedKey pair.key) pair.position

/-- All that is wrong with a block, in the order in which it counts. -/
def complaints (b : Block) : List Fault :=
  inTurn Pair.repeats [] b.pairs ++ (b.gaps ++ (b.keySpecs.flatMap b.mistakes ++ b.strangers))

/-- A block with which nothing is wrong. -/
structure WellFormed (b : Block) : Prop where
  /-- No key stands there twice. -/
  distinct : (b.pairs.map (·.key)).Nodup
  /-- The keys that have to be there are. -/
  complete : ∀ spec ∈ b.keySpecs, spec.required → spec.key ∈ b.pairs.map (·.key)
  /-- A key has a value of a kind that it takes. -/
  kinds : ∀ spec ∈ b.keySpecs, ∀ pair ∈ b.pairs, pair.key = spec.key → pair.value.kind ∈ spec.kinds
  /-- There are no other keys. -/
  known : ∀ pair ∈ b.pairs, pair.key ∈ b.keySpecs.map (·.key)

end Block

/-! ## Well-formed blocks -/

/-- The first complaint about repeated keys is about the pair that is found first. -/
theorem Pair.head?_inTurn_repeats {seen : List String} {before pairs : List Pair}
    (hseen : ∀ key, key ∈ seen ↔ key ∈ before.map (·.key)) :
    (inTurn repeats before pairs).head? = (firstRepeat seen pairs).map fun pair =>
      .atPosition (.duplicateKey pair.key) pair.position := by
  induction pairs generalizing seen before with
  | nil => rfl
  | cons first rest ih =>
    rw [inTurn, firstRepeat, repeats]
    by_cases hmem : first.key ∈ seen
    · rw [if_pos hmem, if_pos ((hseen _).mp hmem)]
      rfl
    · rw [if_neg hmem, if_neg (mt (hseen _).mpr hmem), List.nil_append]
      refine ih fun key => ?_
      rw [List.mem_cons, hseen]
      simp [or_comm]

namespace Block

variable {b : Block}

theorem inTurn_repeats_eq_nil_iff :
    inTurn Pair.repeats [] b.pairs = [] ↔ (b.pairs.map (·.key)).Nodup := by
  have hsay (before : List Pair) (pair : Pair) : pair.repeats before = [] ↔
      ∀ key, some pair.key = some key → key ∉ before.filterMap fun pair => some pair.key := by
    simp [Pair.repeats]
  rw [inTurn_eq_nil_iff_nodup hsay, List.filterMap_eq_map']
  simp

theorem gaps_eq_nil_iff :
    b.gaps = [] ↔ ∀ spec ∈ b.keySpecs, spec.required → spec.key ∈ b.pairs.map (·.key) := by
  simp [gaps, List.filter_eq_nil_iff]

theorem mistakes_eq_nil_iff {spec : KeySpec} :
    b.mistakes spec = [] ↔
      ∀ pair ∈ b.pairs, pair.key = spec.key → pair.value.kind ∈ spec.kinds := by
  simp [mistakes, List.filter_eq_nil_iff]

theorem strangers_eq_nil_iff :
    b.strangers = [] ↔ ∀ pair ∈ b.pairs, pair.key ∈ b.keySpecs.map (·.key) := by
  simp [strangers, List.filter_eq_nil_iff]

/-- There is nothing to complain about in a well-formed block. -/
theorem complaints_eq_nil_iff : b.complaints = [] ↔ b.WellFormed := by
  rw [complaints, List.append_eq_nil_iff, List.append_eq_nil_iff, List.append_eq_nil_iff,
    List.flatMap_eq_nil_iff, inTurn_repeats_eq_nil_iff, gaps_eq_nil_iff, strangers_eq_nil_iff]
  simp only [mistakes_eq_nil_iff]
  constructor
  · rintro ⟨hdistinct, hcomplete, hkinds, hknown⟩
    exact ⟨hdistinct, hcomplete, hkinds, hknown⟩
  · rintro ⟨hdistinct, hcomplete, hkinds, hknown⟩
    exact ⟨hdistinct, hcomplete, hkinds, hknown⟩

/-! ## Checks of keys -/

theorem failsAsFirst_checkDistinct (b : Block) :
    FailsAsFirst (inTurn Pair.repeats [] b.pairs) b.checkDistinct := by
  intro fault
  have hnone (key : String) : key ∈ ([] : List String) ↔ key ∈ ([] : List Pair).map (·.key) := by
    simp
  rw [Pair.head?_inTurn_repeats hnone, checkDistinct]
  cases firstRepeat [] b.pairs <;> simp

/-- The keys that are checked for are those that the table requires. -/
theorem failsAsFirst_checkRequired {required : List String}
    (hrequired : (b.keySpecs.filter (·.required)).map (·.key) = required) :
    FailsAsFirst b.gaps (b.checkRequired required) := by
  intro fault
  have hfind : (required.find? fun key => (b.pair? key).isNone)
      = (b.keySpecs.find? fun spec => spec.required ∧ spec.key ∉ b.pairs.map (·.key)).map
          (·.key) := by
    rw [← hrequired, List.find?_map, List.find?_filter]
    congr 2
    funext spec
    simp [Option.isNone_iff_eq_none, pair?_eq_none_iff]
  rw [checkRequired, hfind, gaps, List.head?_map, List.head?_filter]
  cases List.find? _ b.keySpecs <;> simp [missing]

theorem failsAsFirst_checkKnown {known : List String}
    (hknown : b.keySpecs.map (·.key) = known) :
    FailsAsFirst b.strangers (b.checkKnown known) := by
  intro fault
  have hfind : (b.pairs.find? fun pair => !known.contains pair.key)
      = b.pairs.find? fun pair => pair.key ∉ b.keySpecs.map (·.key) := by
    rw [hknown]
    congr 1
    funext pair
    simp
  rw [checkKnown, hfind, strangers, List.head?_map, List.head?_filter]
  cases List.find? _ b.pairs <;> simp

/-- What is read between the first two checks and the last is complained about in between. -/
theorem failsAsFirst_checked {α : Type} {required : List String} {x : Except Fault α}
    (hrequired : (b.keySpecs.filter (·.required)).map (·.key) = required)
    (hx : (b.pairs.map (·.key)).Nodup →
      (∀ spec ∈ b.keySpecs, spec.required → spec.key ∈ b.pairs.map (·.key)) →
      FailsAsFirst (b.keySpecs.foldr (fun spec later => b.mistakes spec ++ later) b.strangers) x) :
    FailsAsFirst b.complaints (do b.checkDistinct; b.checkRequired required; x) := by
  have hdistinct := b.failsAsFirst_checkDistinct
  have hgaps := failsAsFirst_checkRequired hrequired
  have hlater (specs : List KeySpec) : specs.flatMap b.mistakes ++ b.strangers
      = specs.foldr (fun spec later => b.mistakes spec ++ later) b.strangers := by
    induction specs with
    | nil => rfl
    | cons spec rest ih => rw [List.flatMap_cons, List.append_assoc, ih, List.foldr_cons]
  refine .bind hdistinct fun _ hdistinctOk => .bind hgaps fun _ hgapsOk => ?_
  rw [hlater]
  refine hx ?_ ?_
  · exact inTurn_repeats_eq_nil_iff.mp (hdistinct.exists_ok_iff.mp ⟨_, hdistinctOk⟩)
  · exact gaps_eq_nil_iff.mp (hgaps.exists_ok_iff.mp ⟨_, hgapsOk⟩)

theorem failsAsFirst_known {α : Type} {known : List String}
    (hknown : b.keySpecs.map (·.key) = known) (a : α) :
    FailsAsFirst b.strangers (do b.checkKnown known; return a) := by
  rw [← List.append_nil b.strangers]
  exact .bind (failsAsFirst_checkKnown hknown) fun _ _ => .ok a

/-! ## Values of keys -/

section Keys

variable {α : Type} {read : Value → Option Position → Except Fault α} {spec : KeySpec}

theorem failsAsFirst_read (htakes : Value.Takes read spec.kinds spec.words) (pair : Pair) :
    FailsAsFirst
      (if pair.value.kind ∈ spec.kinds then []
        else [.atPosition (.typeMismatch spec.words pair.value.kind.name) pair.position])
      (read pair.value (some pair.position)) := by
  intro fault
  rw [htakes]
  by_cases hkind : pair.value.kind ∈ spec.kinds
  · simp [hkind]
  · simp [hkind, Value.mismatch, Fault.atPosition]

/-- When no key stands there twice, what is wrong with the values of a key is what is wrong with
that of the pair that is found. -/
theorem mistakes_of_pair? (hdistinct : (b.pairs.map (·.key)).Nodup) {pair : Pair}
    (hpair : b.pair? spec.key = some pair) :
    b.mistakes spec = if pair.value.kind ∈ spec.kinds then []
        else [.atPosition (.typeMismatch spec.words pair.value.kind.name) pair.position] := by
  obtain ⟨hkey, earlier, later, hpairs⟩ := exists_split_of_pair? hpair
  have hothers : ∀ other ∈ earlier ++ later, other.key ≠ spec.key := by
    intro other hother heq
    rw [hpairs, List.map_append, List.map_cons, List.nodup_middle, List.nodup_cons,
      ← List.map_append, hkey] at hdistinct
    exact hdistinct.1 (heq ▸ List.mem_map_of_mem hother)
  have hfilter {others : List Pair} (hsub : others ⊆ earlier ++ later) :
      others.filter (fun other => other.key = spec.key ∧ other.value.kind ∉ spec.kinds) = [] := by
    rw [List.filter_eq_nil_iff]
    intro other hother
    simp [hothers other (hsub hother)]
  rw [mistakes, hpairs, List.filter_append, List.filter_cons, hfilter (by simp), hfilter (by simp)]
  by_cases hkind : pair.value.kind ∈ spec.kinds
  · simp [hkind]
  · simp [hkind, hkey]

theorem mistakes_of_none (hnone : b.pair? spec.key = none) : b.mistakes spec = [] := by
  refine mistakes_eq_nil_iff.mpr fun pair hpair hkey => ?_
  exact absurd (hkey ▸ List.mem_map_of_mem hpair) (pair?_eq_none_iff.mp hnone)

theorem failsAsFirst_optional (hdistinct : (b.pairs.map (·.key)).Nodup)
    (htakes : Value.Takes read spec.kinds spec.words) :
    FailsAsFirst (b.mistakes spec) (b.optional spec.key read) := by
  unfold optional
  split
  · next pair hpair =>
    rw [mistakes_of_pair? hdistinct hpair]
    exact (failsAsFirst_read htakes pair).map
  · next hnone =>
    rw [mistakes_of_none hnone]
    exact .ok none

theorem failsAsFirst_required (hdistinct : (b.pairs.map (·.key)).Nodup)
    (htakes : Value.Takes read spec.kinds spec.words) (hkey : spec.key ∈ b.pairs.map (·.key)) :
    FailsAsFirst (b.mistakes spec) (b.required spec.key read) := by
  unfold required
  split
  · next pair hpair =>
    rw [mistakes_of_pair? hdistinct hpair]
    exact failsAsFirst_read htakes pair
  · next hnone => exact absurd hkey (pair?_eq_none_iff.mp hnone)

end Keys

end Block

/-! ## Definitions -/

variable {b : Block}

namespace WorkflowDefinition

theorem failsAsFirst_ofBlock (hkind : b.kind = Block.workflowKind) :
    FailsAsFirst b.complaints (ofBlock b) := by
  have hspecs : b.keySpecs = keySpecs := if_pos hkind
  have hkeys : (b.keySpecs.filter (·.required)).map (·.key) = keys := by
    rw [hspecs]
    rfl
  refine Block.failsAsFirst_checked hkeys fun hdistinct hpresent => ?_
  rw [hspecs] at hpresent ⊢
  refine .bind (Block.failsAsFirst_required hdistinct Value.takes_asString ?_) fun _ _ => ?_
  · exact hpresent _ (by simp [keySpecs]) rfl
  refine .bind (Block.failsAsFirst_required hdistinct Value.takes_singletonOrArray ?_) fun _ _ => ?_
  · exact hpresent _ (by simp [keySpecs]) rfl
  exact Block.failsAsFirst_known (by rw [hspecs]; rfl) _

end WorkflowDefinition

namespace ActionDefinition

theorem failsAsFirst_ofBlock (hkind : b.kind = Block.actionKind) :
    FailsAsFirst b.complaints (ofBlock b) := by
  have hspecs : b.keySpecs = keySpecs := if_neg (hkind ▸ Block.workflowKind_ne_actionKind.symm)
  have hkeys : (b.keySpecs.filter (·.required)).map (·.key) = requiredKeys := by
    rw [hspecs]
    rfl
  refine Block.failsAsFirst_checked hkeys fun hdistinct hpresent => ?_
  rw [hspecs] at hpresent ⊢
  refine .bind (Block.failsAsFirst_required hdistinct Value.takes_asString ?_) fun _ _ => ?_
  · exact hpresent _ (by simp [keySpecs]) rfl
  refine .bind (Block.failsAsFirst_optional hdistinct Value.takes_singletonOrArray) fun _ _ => ?_
  refine .bind (Block.failsAsFirst_optional hdistinct Value.takes_wordsOrArray) fun _ _ => ?_
  refine .bind (Block.failsAsFirst_optional hdistinct Value.takes_wordsOrArray) fun _ _ => ?_
  refine .bind (Block.failsAsFirst_optional hdistinct Value.takes_asMap) fun _ _ => ?_
  refine .bind (Block.failsAsFirst_optional hdistinct Value.takes_asArray) fun _ _ => ?_
  exact Block.failsAsFirst_known (by rw [hspecs]; rfl) _

end ActionDefinition

namespace Definition

theorem failsAsFirst_ofBlock (hkind : b.kind = Block.workflowKind ∨ b.kind = Block.actionKind) :
    FailsAsFirst b.complaints (ofBlock b) := by
  unfold ofBlock
  split
  · next hworkflow => exact (WorkflowDefinition.failsAsFirst_ofBlock hworkflow).map
  · next hworkflow =>
    have haction := hkind.resolve_left hworkflow
    rw [if_pos haction]
    exact (ActionDefinition.failsAsFirst_ofBlock haction).map

/-- The fault that blocks are refused for is that of the first block that defines nothing. -/
theorem ofBlocks_eq_error_iff {blocks : List Block} {fault : Fault} :
    ofBlocks blocks = .error fault ↔
      ∃ before b after, blocks = before ++ b :: after ∧ (∀ e ∈ before, ∃ d, ofBlock e = .ok d) ∧
        ofBlock b = .error fault := by
  constructor
  · intro h
    induction blocks with
    | nil => cases h
    | cons first rest ih =>
      rcases bind_eq_error_iff.mp h with hfirst | ⟨d, hd, h⟩
      · exact ⟨[], first, rest, rfl, nofun, hfirst⟩
      rcases bind_eq_error_iff.mp h with hrest | ⟨later, -, h⟩
      · obtain ⟨before, b, after, rfl, hbefore, hb⟩ := ih hrest
        exact ⟨first :: before, b, after, rfl, List.forall_mem_cons.mpr ⟨⟨d, hd⟩, hbefore⟩, hb⟩
      · cases h
  · rintro ⟨before, b, after, rfl, hbefore, hb⟩
    induction before with
    | nil => exact bind_eq_error_iff.mpr (.inl hb)
    | cons first rest ih =>
      obtain ⟨d, hd⟩ := hbefore first List.mem_cons_self
      have hrest := ih fun e he => hbefore e (List.mem_cons_of_mem _ he)
      exact bind_eq_error_iff.mpr (.inr ⟨d, hd, bind_eq_error_iff.mpr (.inl hrest)⟩)

/-- **Which blocks define something, what, and what the others are refused for.**  A block of a kind
there is defines something when nothing is wrong with it, and then just what it says; otherwise the
fault is the first of its complaints.  Blocks are refused for the first that defines nothing. -/
theorem reads_wellFormed (hkind : b.kind = Block.workflowKind ∨ b.kind = Block.actionKind) :
    ((∃ d, ofBlock b = .ok d) ↔ b.WellFormed) ∧
    (∀ d, ofBlock b = .ok d ↔ b.WellFormed ∧ d.IsOf b) ∧
    (∀ fault, ofBlock b = .error fault ↔ b.complaints.head? = some fault) ∧
    ∀ blocks fault, ofBlocks blocks = .error fault ↔
      ∃ before c after, blocks = before ++ c :: after ∧ (∀ e ∈ before, ∃ d, ofBlock e = .ok d) ∧
        ofBlock c = .error fault := by
  have hfails := failsAsFirst_ofBlock hkind
  have haccepts : (∃ d, ofBlock b = .ok d) ↔ b.WellFormed :=
    hfails.exists_ok_iff.trans Block.complaints_eq_nil_iff
  refine ⟨haccepts, fun d => ⟨fun h => ⟨haccepts.mp ⟨d, h⟩, isOf_of_ofBlock h⟩, ?_⟩, hfails,
    fun _ _ => ofBlocks_eq_error_iff⟩
  rintro ⟨hwell, hd⟩
  obtain ⟨d', hd'⟩ := haccepts.mpr hwell
  rw [hd.unique hwell.distinct (isOf_of_ofBlock hd'), hd']

/-- An action with a key that it may not have, an array where a map belongs and the first key once
more, and without the key that it has to have. -/
def tangledBlock : Block where
  kind := "action"
  name := "a"
  position := ⟨1, 1⟩
  pairs := [⟨"color", .string "red", ⟨2, 3⟩⟩, ⟨"env", .array [], ⟨3, 3⟩⟩,
    ⟨"color", .string "blue", ⟨4, 3⟩⟩]

theorem reads_wellFormed_tangledBlock :
    (tangledBlock.kind = Block.workflowKind ∨ tangledBlock.kind = Block.actionKind) ∧
    tangledBlock.complaints =
      [.atPosition (.duplicateKey "color") ⟨4, 3⟩, .atPosition (.missingKey "uses") ⟨1, 1⟩,
        .atPosition (.typeMismatch "map" "array") ⟨3, 3⟩,
        .atPosition (.unexpectedKey "color") ⟨2, 3⟩,
        .atPosition (.unexpectedKey "color") ⟨4, 3⟩] ∧
    ofBlock tangledBlock = .error (.atPosition (.duplicateKey "color") ⟨4, 3⟩) := by
  have hkind : tangledBlock.kind = Block.workflowKind ∨ tangledBlock.kind = Block.actionKind := by
    decide
  obtain ⟨-, -, hfails, -⟩ := reads_wellFormed hkind
  exact ⟨hkind, by decide, (hfails _).mpr (by decide)⟩

end Definition

end ContainerFlow
