/-
ContainerFlow.Proofs.Block.Spelling — which names and strings are found
in blocks.

What is written by tokens is spelled as the tokens are: keys, and the
names that maps bind, are names, and strings are what may stand between
quotes.  Since the tokens of a text are spelled as they have to be
(`spelled_of_mem_scan`), so are the blocks that are read from a text
(`spelled_of_ofText`).
-/
import ContainerFlow.Proofs.Block.Grammar
import ContainerFlow.Proofs.Token.Cover

namespace ContainerFlow

/-! ## Spelled blocks -/

/-- Strings, and the names that are bound, are written as they have to be. -/
def Value.Spelled : Value → Prop
  | .string text => StringBody text.toList
  | .array items => ∀ item ∈ items, StringBody item.toList
  | .map b => ∀ entry ∈ b.entries, IsName entry.1.toList ∧ StringBody entry.2.toList

/-- The key and the value of a pair are written as they have to be. -/
structure Pair.Spelled (pair : Pair) : Prop where
  key : IsName pair.key.toList
  value : pair.value.Spelled

/-- Everything in a block is written as it has to be. -/
structure Block.Spelled (b : Block) : Prop where
  kind : b.kind = workflowKind ∨ b.kind = actionKind
  name : StringBody b.name.toList
  pairs : ∀ pair ∈ b.pairs, pair.Spelled

/-! ## From tokens to blocks -/

/-- What holds of every phrase whose tokens are of a kind holds of all of many phrases whose tokens
are. -/
theorem Many.forall_of_forall {α : Type} {phrase : List Token → α → Prop} {P : α → Prop}
    {Q : Token → Prop} (step : ∀ ts a, phrase ts a → (∀ t ∈ ts, Q t) → P a)
    {ts : List Token} {as : List α} (h : Many phrase ts as) (hts : ∀ t ∈ ts, Q t) :
    ∀ a ∈ as, P a := by
  induction h with
  | nil => simp
  | cons first _ ih =>
    obtain ⟨hfirst, hrest⟩ := List.forall_mem_append.mp hts
    exact List.forall_mem_cons.mpr ⟨step _ _ first hfirst, ih hrest⟩

theorem Token.Quotes.spelled {t : Token} {text : String} (h : t.Quotes text)
    (ht : t.lexeme.Spelled) : StringBody text.toList := by
  obtain ⟨p, rfl⟩ := Token.quotes_iff.mp h
  exact ht

variable {ts : List Token}

theorem WritesItems.spelled {items : List String} (h : WritesItems ts items)
    (hts : ∀ t ∈ ts, t.lexeme.Spelled) : ∀ item ∈ items, StringBody item.toList := by
  cases h with
  | nil => simp
  | cons quotes more _ =>
    obtain ⟨hfirst, hrest⟩ := List.forall_mem_append.mp hts
    obtain ⟨ht, hmore⟩ := List.forall_mem_cons.mp hfirst
    refine List.forall_mem_cons.mpr ⟨quotes.spelled ht, more.forall_of_forall ?_ hmore⟩
    rintro _ _ ⟨quotes⟩ hnext
    exact quotes.spelled (hnext _ (by simp))

theorem WritesEntry.spelled {entry : String × String} (h : WritesEntry ts entry)
    (hts : ∀ t ∈ ts, t.lexeme.Spelled) :
    IsName entry.1.toList ∧ StringBody entry.2.toList := by
  cases h with
  | mk quotes _ => exact ⟨hts _ List.mem_cons_self, quotes.spelled (hts _ (by simp))⟩

theorem WritesValue.spelled {v : Value} (h : WritesValue ts v)
    (hts : ∀ t ∈ ts, t.lexeme.Spelled) : v.Spelled := by
  cases h with
  | string quotes => exact quotes.spelled (hts _ (by simp))
  | array inner => exact inner.spelled fun t ht => hts t (by simp [ht])
  | map inner gathers =>
    intro entry hentry
    refine inner.forall_of_forall (fun _ _ h => h.spelled) ?_ entry (gathers.subset hentry)
    exact fun t ht => hts t (by simp [ht])

theorem WritesPair.spelled {pair : Pair} (h : WritesPair ts pair)
    (hts : ∀ t ∈ ts, t.lexeme.Spelled) : pair.Spelled := by
  cases h with
  | mk value => exact ⟨hts _ List.mem_cons_self, value.spelled fun t ht => hts t (by simp [ht])⟩

theorem WritesBlock.spelled {b : Block} (h : WritesBlock ts b)
    (hts : ∀ t ∈ ts, t.lexeme.Spelled) : b.Spelled := by
  cases h with
  | mk kind_eq quotes inner =>
    refine ⟨kind_eq, quotes.spelled (hts _ (by simp)), ?_⟩
    exact inner.forall_of_forall (fun _ _ h => h.spelled) fun t ht => hts t (by simp [ht])

/-- The blocks that are read from a text are written as they have to be. -/
theorem spelled_of_ofText {text : String} {blocks : List Block}
    (h : Block.ofText text = .ok blocks) : ∀ b ∈ blocks, b.Spelled := by
  obtain ⟨tokens, finish, hscan, hread⟩ := Block.ofText_eq_ok_iff.mp h
  have htokens : ∀ t ∈ tokens, t.lexeme.Spelled := by
    have hall := spelled_of_mem_scan text
    rwa [hscan] at hall
  exact Many.forall_of_forall (fun _ _ h => h.spelled) (readBlocks_eq_ok_iff.mp hread) htokens

end ContainerFlow
