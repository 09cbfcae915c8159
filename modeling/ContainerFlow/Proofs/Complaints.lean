/-
ContainerFlow.Proofs.Complaints — of all that is wrong, what comes first.

More than one thing may be wrong at a time, and a step that fails can
name only one of them.  `FailsAsFirst complaints x` says which: the
complaints are all that is wrong, in the order in which they count, and
`x` fails with the first of them, or comes to a value when there are none.

Of a chain of steps the complaints of the first count before those of the
rest (`FailsAsFirst.bind`).  Complaints about a list are made item by
item, each in view of the items before it (`inTurn`).
-/
import ContainerFlow.Proofs.Except

namespace ContainerFlow

/-! ## Complaints in turn -/

section InTurn

variable {α β : Type}

/-- What there is to say of items that stand behind others, from the first on: `say` gets all the
items before one, and then the item. -/
def inTurn (say : List α → α → List β) (before : List α) : List α → List β
  | [] => []
  | a :: rest => say before a ++ inTurn say (before ++ [a]) rest

variable {say : List α → α → List β} {before items : List α} {b : β}

/-- What is said first is said of an item, and nothing is of those before it. -/
theorem exists_split_of_head?_inTurn (h : (inTurn say before items).head? = some b) :
    ∃ earlier a later, items = earlier ++ a :: later ∧ inTurn say before earlier = [] ∧
      (say (before ++ earlier) a).head? = some b := by
  induction items generalizing before with
  | nil => cases h
  | cons a rest ih =>
    rw [inTurn, List.head?_append, Option.or_eq_some_iff] at h
    rcases h with hfirst | ⟨hnone, hrest⟩
    · exact ⟨[], a, rest, rfl, rfl, by simpa using hfirst⟩
    · obtain ⟨earlier, c, later, rfl, hearlier, hc⟩ := ih hrest
      refine ⟨a :: earlier, c, later, rfl, ?_, by simpa using hc⟩
      rw [inTurn, hearlier, List.head?_eq_none_iff.mp hnone, List.append_nil]

/-- What is true of all that there is to say of an item is true of all that is said. -/
theorem forall_mem_inTurn {P : β → Prop} (h : ∀ before, ∀ a ∈ items, ∀ b ∈ say before a, P b) :
    ∀ b ∈ inTurn say before items, P b := by
  induction items generalizing before with
  | nil => exact nofun
  | cons a rest ih =>
    intro b hb
    rcases List.mem_append.mp hb with hfirst | hrest
    · exact h before a List.mem_cons_self b hfirst
    · exact ih (fun before c hc => h before c (List.mem_cons_of_mem a hc)) b hrest

/-- When what there is to say of an item is that an item before it has its key, nothing is said of
items with keys that all differ, from each other and from those before. -/
theorem inTurn_eq_nil_iff_nodup {κ : Type} {key? : α → Option κ}
    (hsay : ∀ before a, say before a = [] ↔ ∀ k, key? a = some k → k ∉ before.filterMap key?) :
    inTurn say before items = [] ↔ (items.filterMap key?).Nodup ∧
      ∀ k ∈ items.filterMap key?, k ∉ before.filterMap key? := by
  induction items generalizing before with
  | nil => simp [inTurn]
  | cons a rest ih =>
    rw [inTurn, List.append_eq_nil_iff, hsay, ih, List.filterMap_append]
    cases hkey : key? a with
    | none => simp [hkey]
    | some k =>
      have hlast : [a].filterMap key? = [k] := by simp [hkey]
      rw [hlast, List.filterMap_cons_some hkey, List.nodup_cons, List.forall_mem_cons]
      simp only [List.mem_append, List.mem_singleton, not_or, Option.some.injEq, forall_eq']
      constructor
      · rintro ⟨hnew, hnodup, hrest⟩
        exact ⟨⟨fun hmem => (hrest k hmem).2 rfl, hnodup⟩, hnew, fun l hl => (hrest l hl).1⟩
      · rintro ⟨⟨hdiffers, hnodup⟩, hnew, hrest⟩
        exact ⟨hnew, hnodup, fun l hl => ⟨hrest l hl, fun heq => hdiffers (heq ▸ hl)⟩⟩

end InTurn

/-! ## The first complaint -/

section First

variable {α β : Type} {complaints later : List Fault} {x : Except Fault α}

/-- The step fails with the first of these complaints, and does not fail without any. -/
def FailsAsFirst (complaints : List Fault) (x : Except Fault α) : Prop :=
  ∀ fault, x = .error fault ↔ complaints.head? = some fault

namespace FailsAsFirst

theorem ok (a : α) : FailsAsFirst [] (.ok a : Except Fault α) := by
  intro fault
  simp

theorem error (fault : Fault) (rest : List Fault) :
    FailsAsFirst (fault :: rest) (.error fault : Except Fault α) := by
  intro other
  simp

/-- A step comes to a value when there is nothing to complain about. -/
theorem exists_ok_iff (h : FailsAsFirst complaints x) : (∃ a, x = .ok a) ↔ complaints = [] := by
  cases x with
  | ok a =>
    have hnone : complaints.head? = none := by
      rw [Option.eq_none_iff_forall_ne_some]
      intro fault hfault
      cases (h fault).mpr hfault
    exact ⟨fun _ => List.head?_eq_none_iff.mp hnone, fun _ => ⟨a, rfl⟩⟩
  | error fault =>
    have hsome := (h fault).mp rfl
    constructor
    · rintro ⟨a, ha⟩
      cases ha
    · intro hnil
      rw [hnil] at hsome
      cases hsome

theorem eq_nil_of_ok {a : α} (h : FailsAsFirst complaints (.ok a : Except Fault α)) :
    complaints = [] :=
  h.exists_ok_iff.mp ⟨a, rfl⟩

/-- What the first step of a chain complains about counts before what the rest does. -/
theorem bind {f : α → Except Fault β} (hx : FailsAsFirst complaints x)
    (hf : ∀ a, x = .ok a → FailsAsFirst later (f a)) :
    FailsAsFirst (complaints ++ later) (x >>= f) := by
  intro fault
  cases x with
  | ok a =>
    rw [hx.eq_nil_of_ok]
    exact hf a rfl fault
  | error found =>
    have hfound := (hx found).mp rfl
    rw [List.head?_append, hfound]
    simp [bind, Except.bind]

theorem map {f : α → β} (hx : FailsAsFirst complaints x) : FailsAsFirst complaints (x.map f) := by
  intro fault
  rw [map_eq_error_iff]
  exact hx fault

end FailsAsFirst

end First

end ContainerFlow
