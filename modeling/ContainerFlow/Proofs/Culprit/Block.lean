/-
ContainerFlow.Proofs.Culprit.Block — what is wrong with a block that
defines nothing, and where in the block.

`Block.Faulty cause spot` reads a cause off the table of keys and the
pairs of the block: a key that stands there again, one that is not there,
a value of a kind that its key does not take, the first key that is not in
the table.  The first complaint about a block is of one of these kinds
(`reports_of_head?_complaints`), and it is what the block is refused for.
The main statement is `reports_of_ofBlock`.
-/
import Mathlib
import ContainerFlow.Proofs.Culprit.Place
import ContainerFlow.Proofs.Definition.Complaints

namespace ContainerFlow

namespace Block

/-- What may be wrong with a block, and where. -/
inductive Faulty (b : Block) : Cause → Spot → Prop where
  /-- A pair before this one has its key. -/
  | duplicateKey {earlier : List Pair} {pair : Pair}
      (repeated : pair.key ∈ earlier.map (·.key)) :
      b.Faulty (.duplicateKey pair.key) (.key earlier pair)
  /-- No pair has a key that has to be there. -/
  | missingKey {spec : KeySpec} (known : spec ∈ b.keySpecs) (required : spec.required)
      (absent : spec.key ∉ b.pairs.map (·.key)) :
      b.Faulty (.missingKey spec.key) .head
  /-- The value of the pair is of a kind that its key does not take. -/
  | typeMismatch {earlier : List Pair} {pair : Pair} {spec : KeySpec} (known : spec ∈ b.keySpecs)
      (key : pair.key = spec.key) (kind : pair.value.kind ∉ spec.kinds) :
      b.Faulty (.typeMismatch spec.words pair.value.kind.name) (.key earlier pair)
  /-- The block may not have the key of the pair, but those of all pairs before it. -/
  | unexpectedKey {earlier : List Pair} {pair : Pair}
      (unknown : pair.key ∉ b.keySpecs.map (·.key))
      (first : ∀ e ∈ earlier, e.key ∈ b.keySpecs.map (·.key)) :
      b.Faulty (.unexpectedKey pair.key) (.key earlier pair)

/-- The fault is one of the block's own, reported where it is. -/
def Reports (b : Block) (fault : Fault) : Prop :=
  ∃ cause spot, b.Faulty cause spot ∧ spot.IsIn b ∧ fault = .atPosition cause (spot.position b)

variable {b : Block} {fault : Fault}

/-- The first complaint is about something that is wrong with the block, where it is wrong. -/
theorem reports_of_head?_complaints (h : b.complaints.head? = some fault) : b.Reports fault := by
  rw [complaints, List.head?_append, Option.or_eq_some_iff] at h
  rcases h with hrepeats | ⟨-, h⟩
  · obtain ⟨earlier, pair, later, hpairs, -, hpair⟩ := exists_split_of_head?_inTurn hrepeats
    rw [List.nil_append, Pair.repeats] at hpair
    split at hpair
    · next hkey =>
      cases hpair
      exact ⟨_, _, .duplicateKey hkey, ⟨later, hpairs⟩, rfl⟩
    · cases hpair
  rw [List.head?_append, Option.or_eq_some_iff] at h
  rcases h with hgaps | ⟨-, h⟩
  · obtain ⟨spec, hspec, rfl⟩ := List.mem_map.mp (List.mem_of_head? hgaps)
    obtain ⟨hknown, hmissing⟩ := List.mem_filter.mp hspec
    obtain ⟨hrequired, habsent⟩ := of_decide_eq_true hmissing
    exact ⟨_, _, .missingKey hknown hrequired habsent, trivial, rfl⟩
  rw [List.head?_append, Option.or_eq_some_iff] at h
  rcases h with hmistakes | ⟨-, hstrangers⟩
  · obtain ⟨spec, hspec, hmistake⟩ := List.mem_flatMap.mp (List.mem_of_head? hmistakes)
    obtain ⟨pair, hpair, rfl⟩ := List.mem_map.mp hmistake
    obtain ⟨hmem, hwrong⟩ := List.mem_filter.mp hpair
    obtain ⟨hkey, hkind⟩ := of_decide_eq_true hwrong
    obtain ⟨earlier, later, hpairs⟩ := List.append_of_mem hmem
    exact ⟨_, _, .typeMismatch hspec hkey hkind, ⟨later, hpairs⟩, rfl⟩
  · rw [strangers, List.head?_map, List.head?_filter] at hstrangers
    obtain ⟨pair, hpair, rfl⟩ := Option.map_eq_some_iff.mp hstrangers
    obtain ⟨hunknown, earlier, later, hpairs, hearlier⟩ := List.find?_eq_some_iff_append.mp hpair
    have hfirst : ∀ e ∈ earlier, e.key ∈ b.keySpecs.map (·.key) := by
      intro e he
      simpa using hearlier e he
    exact ⟨_, _, .unexpectedKey (of_decide_eq_true hunknown) hfirst, ⟨later, hpairs⟩, rfl⟩

end Block

namespace Definition

variable {b : Block} {fault : Fault}

/-- A block that defines nothing is refused for what is wrong with it, where it is wrong. -/
theorem reports_of_ofBlock (hkind : b.kind = Block.workflowKind ∨ b.kind = Block.actionKind)
    (h : ofBlock b = .error fault) : b.Reports fault :=
  Block.reports_of_head?_complaints ((failsAsFirst_ofBlock hkind fault).mp h)

end Definition

end ContainerFlow
