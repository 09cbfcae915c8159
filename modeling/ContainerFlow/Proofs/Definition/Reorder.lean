/-
ContainerFlow.Proofs.Definition.Reorder — the order of the pairs of a
block makes no difference to what it defines.

What a block says is said by pairs that stand somewhere in it, and its
complaints are about keys that are nowhere in it or about pairs with keys
that stand there once (`gaps_of_perm`, `mistakes_of_perm`).  So the pairs
in another order make the same definition or are refused for the same
thing.  Only of several keys that stand there again, or of several
unknown ones, another may come first (`Fault.SameButForKey`).

The main statement is `ofBlock_of_perm`.
-/
import Mathlib
import ContainerFlow.Proofs.Definition.Complaints

namespace ContainerFlow

/-- The faults are the same; or they are of one kind, that a key stands there again or that it is
unknown, and may name different keys. -/
inductive Fault.SameButForKey : Fault → Fault → Prop where
  | same (fault : Fault) : SameButForKey fault fault
  | duplicateKey (key key' : String) (p p' : Position) :
      SameButForKey (.atPosition (.duplicateKey key) p) (.atPosition (.duplicateKey key') p')
  | unexpectedKey (key key' : String) (p p' : Position) :
      SameButForKey (.atPosition (.unexpectedKey key) p) (.atPosition (.unexpectedKey key') p')

namespace Block

variable {b : Block} {pairs : List Pair}

theorem nodup_keys_of_perm (h : b.pairs.Perm pairs) :
    (b.pairs.map (·.key)).Nodup ↔ (pairs.map (·.key)).Nodup :=
  (h.map _).nodup_iff

theorem mem_keys_of_perm (h : b.pairs.Perm pairs) {key : String} :
    key ∈ pairs.map (·.key) ↔ key ∈ b.pairs.map (·.key) :=
  (h.map _).mem_iff.symm

/-! ## What a block says -/

theorem Says.of_perm {α : Type} {key : String} {project : Value → Option α} {a? : Option α}
    (hsaid : b.Says key project a?) (h : b.pairs.Perm pairs) :
    { b with pairs }.Says key project a? := by
  cases a? with
  | none => exact fun hkey => hsaid ((mem_keys_of_perm h).mp hkey)
  | some a =>
    obtain ⟨pair, hpair, hkey, ha⟩ := hsaid
    exact ⟨pair, h.mem_iff.mp hpair, hkey, ha⟩

theorem SaysOr.of_perm {α : Type} {key : String} {project : Value → Option α} {absent a : α}
    (hsaid : b.SaysOr key project absent a) (h : b.pairs.Perm pairs) :
    { b with pairs }.SaysOr key project absent a := by
  obtain ⟨a?, ha, heq⟩ := hsaid
  exact ⟨a?, ha.of_perm h, heq⟩

/-! ## What is wrong with a block -/

theorem WellFormed.of_perm (hwell : b.WellFormed) (h : b.pairs.Perm pairs) :
    { b with pairs }.WellFormed := by
  constructor
  case distinct => exact (nodup_keys_of_perm h).mp hwell.distinct
  case complete =>
    exact fun spec hspec hrequired => (mem_keys_of_perm h).mpr (hwell.complete spec hspec hrequired)
  case kinds => exact fun spec hspec pair hpair => hwell.kinds spec hspec pair (h.mem_iff.mpr hpair)
  case known => exact fun pair hpair => hwell.known pair (h.mem_iff.mpr hpair)

theorem gaps_of_perm (h : b.pairs.Perm pairs) : { b with pairs }.gaps = b.gaps := by
  simp only [gaps, keySpecs, mem_keys_of_perm h]

/-- When no key stands there twice, it does not matter where the pair with a key stands. -/
theorem pair?_eq_some_iff (hdistinct : (b.pairs.map (·.key)).Nodup) {key : String} {pair : Pair} :
    b.pair? key = some pair ↔ pair ∈ b.pairs ∧ pair.key = key := by
  constructor
  · intro h
    obtain ⟨hkey, earlier, later, hpairs⟩ := exists_split_of_pair? h
    exact ⟨by simp [hpairs], hkey⟩
  · rintro ⟨hpair, rfl⟩
    obtain ⟨found, hfound⟩ := Option.ne_none_iff_exists'.mp fun hnone =>
      pair?_eq_none_iff.mp hnone (List.mem_map_of_mem hpair)
    obtain ⟨hkey, earlier, later, hpairs⟩ := exists_split_of_pair? hfound
    rw [hfound, List.inj_on_of_nodup_map hdistinct (by simp [hpairs]) hpair hkey]

theorem mistakes_of_perm (hdistinct : (b.pairs.map (·.key)).Nodup) (h : b.pairs.Perm pairs)
    (spec : KeySpec) : { b with pairs }.mistakes spec = b.mistakes spec := by
  have hdistinct' : (pairs.map (·.key)).Nodup := (nodup_keys_of_perm h).mp hdistinct
  cases hpair : b.pair? spec.key with
  | none =>
    have hnone : { b with pairs }.pair? spec.key = none :=
      pair?_eq_none_iff.mpr fun hkey => pair?_eq_none_iff.mp hpair ((mem_keys_of_perm h).mp hkey)
    rw [mistakes_of_none hpair, mistakes_of_none hnone]
  | some pair =>
    obtain ⟨hmem, hkey⟩ := (pair?_eq_some_iff hdistinct).mp hpair
    have hsome : { b with pairs }.pair? spec.key = some pair :=
      (pair?_eq_some_iff hdistinct').mpr ⟨h.mem_iff.mp hmem, hkey⟩
    rw [mistakes_of_pair? hdistinct hpair, mistakes_of_pair? hdistinct' hsome]

theorem strangers_perm (h : b.pairs.Perm pairs) : b.strangers.Perm { b with pairs }.strangers :=
  (h.filter _).map _

theorem eq_duplicateKey_of_mem_repeats {fault : Fault}
    (h : fault ∈ inTurn Pair.repeats [] b.pairs) :
    ∃ key p, fault = .atPosition (.duplicateKey key) p := by
  refine forall_mem_inTurn (P := fun fault => ∃ key p, fault = .atPosition (.duplicateKey key) p)
    (fun before pair _ fault hfault => ?_) fault h
  unfold Pair.repeats at hfault
  split at hfault
  · exact ⟨pair.key, pair.position, List.mem_singleton.mp hfault⟩
  · cases hfault

theorem eq_unexpectedKey_of_mem_strangers {fault : Fault} (h : fault ∈ b.strangers) :
    ∃ key p, fault = .atPosition (.unexpectedKey key) p := by
  obtain ⟨pair, -, rfl⟩ := List.mem_map.mp h
  exact ⟨pair.key, pair.position, rfl⟩

/-- What has to be said first of a block has to be said first of its pairs in another order, up to
the key that is named. -/
theorem head?_complaints_of_perm (h : b.pairs.Perm pairs) {fault : Fault}
    (hfault : b.complaints.head? = some fault) :
    ∃ fault', { b with pairs }.complaints.head? = some fault' ∧ fault.SameButForKey fault' := by
  rw [complaints] at hfault ⊢
  rw [List.head?_append, Option.or_eq_some_iff] at hfault
  rcases hfault with hrepeats | ⟨hrepeats, hlater⟩
  · -- Some key stands there again, and does so in every order.
    obtain ⟨key, p, rfl⟩ := eq_duplicateKey_of_mem_repeats (List.mem_of_head? hrepeats)
    have hdistinct : ¬ (b.pairs.map (·.key)).Nodup := fun hdistinct => by
      rw [inTurn_repeats_eq_nil_iff.mpr hdistinct] at hrepeats
      cases hrepeats
    have hrepeats' : inTurn Pair.repeats [] { b with pairs }.pairs ≠ [] := fun hnil =>
      hdistinct ((nodup_keys_of_perm h).mpr (inTurn_repeats_eq_nil_iff.mp hnil))
    obtain ⟨fault', rest, hfault'⟩ := List.exists_cons_of_ne_nil hrepeats'
    obtain ⟨key', p', rfl⟩ :=
      eq_duplicateKey_of_mem_repeats (b := { b with pairs }) (hfault' ▸ List.mem_cons_self)
    exact ⟨_, by rw [hfault']; rfl, .duplicateKey key key' p p'⟩
  · have hdistinct : (b.pairs.map (·.key)).Nodup :=
      inTurn_repeats_eq_nil_iff.mp (List.head?_eq_none_iff.mp hrepeats)
    have hrepeats' : inTurn Pair.repeats [] { b with pairs }.pairs = [] :=
      inTurn_repeats_eq_nil_iff.mpr ((nodup_keys_of_perm h).mp hdistinct)
    have hmistakes : { b with pairs }.keySpecs.flatMap { b with pairs }.mistakes
        = b.keySpecs.flatMap b.mistakes :=
      congrArg (b.keySpecs.flatMap ·) (funext (mistakes_of_perm hdistinct h))
    rw [hrepeats', List.nil_append, gaps_of_perm h, hmistakes, ← List.append_assoc,
      List.head?_append]
    rw [← List.append_assoc, List.head?_append, Option.or_eq_some_iff] at hlater
    rcases hlater with hsame | ⟨hnone, hstranger⟩
    · exact ⟨fault, by rw [hsame]; rfl, .same fault⟩
    · -- Only unknown keys are left to name.
      obtain ⟨key, p, rfl⟩ := eq_unexpectedKey_of_mem_strangers (List.mem_of_head? hstranger)
      have hmem := (strangers_perm h).mem_iff.mp (List.mem_of_head? hstranger)
      obtain ⟨fault', rest, hfault'⟩ := List.exists_cons_of_ne_nil (List.ne_nil_of_mem hmem)
      obtain ⟨key', p', rfl⟩ := eq_unexpectedKey_of_mem_strangers (hfault' ▸ List.mem_cons_self)
      exact ⟨_, by rw [hnone, hfault']; rfl, .unexpectedKey key key' p p'⟩

end Block

variable {b : Block} {pairs : List Pair}

/-! ## Definitions -/

theorem WorkflowDefinition.IsOf.of_perm {d : WorkflowDefinition} (hd : d.IsOf b)
    (h : b.pairs.Perm pairs) : d.IsOf { b with pairs } :=
  ⟨hd.name, hd.position, hd.trigger.of_perm h, hd.resolves.of_perm h⟩

theorem ActionDefinition.IsOf.of_perm {d : ActionDefinition} (hd : d.IsOf b)
    (h : b.pairs.Perm pairs) : d.IsOf { b with pairs } :=
  ⟨hd.name, hd.position, hd.uses.of_perm h, hd.needs.of_perm h, hd.runs.of_perm h,
    hd.args.of_perm h, hd.env.of_perm h, hd.secrets.of_perm h⟩

namespace Definition

theorem IsOf.of_perm {d : Definition} (hd : d.IsOf b) (h : b.pairs.Perm pairs) :
    d.IsOf { b with pairs } := by
  cases d with
  | workflow d => exact ⟨hd.1, hd.2.of_perm h⟩
  | action d => exact ⟨hd.1, hd.2.of_perm h⟩

/-- Blocks of other kinds define nothing, whatever their pairs. -/
theorem ofBlock_of_kind (hkind : ¬ (b.kind = Block.workflowKind ∨ b.kind = Block.actionKind)) :
    ofBlock b = .error (.defect (.unknownBlockKind b.kind)) := by
  rw [not_or] at hkind
  rw [ofBlock, if_neg hkind.1, if_neg hkind.2]

theorem ofBlock_ok_of_perm (h : b.pairs.Perm pairs) {d : Definition} (hd : ofBlock b = .ok d) :
    ofBlock { b with pairs } = .ok d := by
  by_cases hkind : b.kind = Block.workflowKind ∨ b.kind = Block.actionKind
  · have hwell : b.WellFormed := Block.complaints_eq_nil_iff.mp
      ((failsAsFirst_ofBlock hkind).exists_ok_iff.mp ⟨d, hd⟩)
    have hwell' := hwell.of_perm h
    have hfails := failsAsFirst_ofBlock (b := { b with pairs }) hkind
    obtain ⟨d', hd'⟩ := hfails.exists_ok_iff.mpr (Block.complaints_eq_nil_iff.mpr hwell')
    have heq : d = d' :=
      ((isOf_of_ofBlock hd).of_perm h).unique hwell'.distinct (isOf_of_ofBlock hd')
    rw [hd', heq]
  · rw [ofBlock_of_kind hkind] at hd
    cases hd

theorem exists_error_of_perm (h : b.pairs.Perm pairs) {fault : Fault}
    (hfault : ofBlock b = .error fault) :
    ∃ fault', ofBlock { b with pairs } = .error fault' ∧ fault.SameButForKey fault' := by
  by_cases hkind : b.kind = Block.workflowKind ∨ b.kind = Block.actionKind
  · obtain ⟨fault', hfault', hsame⟩ :=
      Block.head?_complaints_of_perm h ((failsAsFirst_ofBlock hkind fault).mp hfault)
    have hfails := failsAsFirst_ofBlock (b := { b with pairs }) hkind
    exact ⟨fault', (hfails fault').mpr hfault', hsame⟩
  · rw [ofBlock_of_kind hkind] at hfault
    cases hfault
    exact ⟨_, ofBlock_of_kind hkind, .same _⟩

/-- What a block is refused for, its pairs in another order are refused for, kind by kind. -/
theorem error_of_perm (h : b.pairs.Perm pairs) :
    (∀ key p, ofBlock b = .error (.atPosition (.missingKey key) p) →
      ofBlock { b with pairs } = .error (.atPosition (.missingKey key) p)) ∧
    (∀ expected actual p, ofBlock b = .error (.atPosition (.typeMismatch expected actual) p) →
      ofBlock { b with pairs } = .error (.atPosition (.typeMismatch expected actual) p)) ∧
    ((∃ key p, ofBlock b = .error (.atPosition (.duplicateKey key) p)) →
      ∃ key p, ofBlock { b with pairs } = .error (.atPosition (.duplicateKey key) p)) ∧
    ((∃ key p, ofBlock b = .error (.atPosition (.unexpectedKey key) p)) →
      ∃ key p, ofBlock { b with pairs } = .error (.atPosition (.unexpectedKey key) p)) := by
  refine ⟨fun key p hfault => ?_, fun expected actual p hfault => ?_, ?_, ?_⟩
  · obtain ⟨_, hfault', ⟨⟩⟩ := exists_error_of_perm h hfault
    exact hfault'
  · obtain ⟨_, hfault', ⟨⟩⟩ := exists_error_of_perm h hfault
    exact hfault'
  · rintro ⟨key, p, hfault⟩
    obtain ⟨_, hfault', ⟨⟩⟩ := exists_error_of_perm h hfault <;> exact ⟨_, _, hfault'⟩
  · rintro ⟨key, p, hfault⟩
    obtain ⟨_, hfault', ⟨⟩⟩ := exists_error_of_perm h hfault <;> exact ⟨_, _, hfault'⟩

/-! ## Main result -/

/-- **The order of the keys of a block decides nothing**: its pairs in another order define the
same, lack the same key, and have a value of the wrong kind at the same place and in the same words.
Only which of several repeated keys is named, or which of several unknown ones, may change. -/
theorem ofBlock_of_perm (h : b.pairs.Perm pairs) :
    (∀ d, ofBlock b = .ok d ↔ ofBlock { b with pairs } = .ok d) ∧
    (∀ key p, ofBlock b = .error (.atPosition (.missingKey key) p) ↔
      ofBlock { b with pairs } = .error (.atPosition (.missingKey key) p)) ∧
    (∀ expected actual p, ofBlock b = .error (.atPosition (.typeMismatch expected actual) p) ↔
      ofBlock { b with pairs } = .error (.atPosition (.typeMismatch expected actual) p)) ∧
    ((∃ key p, ofBlock b = .error (.atPosition (.duplicateKey key) p)) ↔
      ∃ key p, ofBlock { b with pairs } = .error (.atPosition (.duplicateKey key) p)) ∧
    ((∃ key p, ofBlock b = .error (.atPosition (.unexpectedKey key) p)) ↔
      ∃ key p, ofBlock { b with pairs } = .error (.atPosition (.unexpectedKey key) p)) := by
  have hsymm : { b with pairs }.pairs.Perm b.pairs := h.symm
  obtain ⟨hmissing, hkind, hrepeated, hunknown⟩ := error_of_perm h
  obtain ⟨hmissing', hkind', hrepeated', hunknown'⟩ := error_of_perm hsymm
  exact ⟨fun d => ⟨ofBlock_ok_of_perm h, ofBlock_ok_of_perm hsymm⟩,
    fun key p => ⟨hmissing key p, hmissing' key p⟩,
    fun expected actual p => ⟨hkind expected actual p, hkind' expected actual p⟩,
    ⟨hrepeated, hrepeated'⟩, ⟨hunknown, hunknown'⟩⟩

/-- An action with an array where a map belongs, and behind it a map where an array belongs, which
is the one that is reported, and an unknown key before both. -/
def mistakenBlock : Block where
  kind := "action"
  name := "a"
  position := ⟨1, 1⟩
  pairs := [⟨"color", .string "red", ⟨2, 3⟩⟩, ⟨"env", .array [], ⟨3, 3⟩⟩,
    ⟨"needs", .map .empty, ⟨4, 3⟩⟩, ⟨"uses", .string "docker://i", ⟨5, 3⟩⟩]

theorem ofBlock_of_perm_mistakenBlock :
    let pairs := mistakenBlock.pairs.reverse
    mistakenBlock.pairs.Perm pairs ∧
    ofBlock mistakenBlock
      = .error (.atPosition (.typeMismatch "array or single string" "map") ⟨4, 3⟩) ∧
    ofBlock { mistakenBlock with pairs }
      = .error (.atPosition (.typeMismatch "array or single string" "map") ⟨4, 3⟩) := by
  intro pairs
  have hperm : mistakenBlock.pairs.Perm pairs := (List.reverse_perm _).symm
  have hfault : ofBlock mistakenBlock
      = .error (.atPosition (.typeMismatch "array or single string" "map") ⟨4, 3⟩) := by
    cbv
  obtain ⟨-, -, hkind, -⟩ := ofBlock_of_perm hperm
  exact ⟨hperm, hfault, (hkind _ _ _).mp hfault⟩

end Definition

end ContainerFlow
