/-
ContainerFlow.Proofs.Block.Awaiting — what a reader of blocks is waiting
for.

Values do not hold values, so all that a reader of blocks has to remember
is which of twelve things it is waiting for (`Awaiting`).  Each of them
says which lexemes may come next (`Awaiting.next`), and each can be
brought to the end of a file (`Awaiting.closing`).

A reader goes from state to state with every token that it uses up, and
the token that it complains of is one that the state has no use for
(`Follows`, with one lemma for each reader).  So tokens are blocks when
they lead from one block to another (`readBlocks_isOk_iff`).
-/
import Mathlib
import ContainerFlow.Block.Read
import ContainerFlow.Proofs.Token.Spelling

namespace ContainerFlow

/-- What a reader of blocks is waiting for. -/
inductive Awaiting where
  /-- A block, or the end of the file. -/
  | block
  | title
  | opening
  /-- A pair, or the end of the block. -/
  | pair
  | equals
  | value
  /-- An item, or the end of the array. -/
  | item
  | itemEnd
  /-- An entry, or the end of the map. -/
  | entry
  | entryEquals
  | entryText
  | entryEnd
  deriving DecidableEq, Repr

namespace Awaiting

/-- What is waited for behind a lexeme, if this is one that may come. -/
def next : Awaiting → Lexeme → Option Awaiting
  | .block, .name kind =>
    if kind = Block.workflowKind ∨ kind = Block.actionKind then some .title else none
  | .title, .string _ => some .opening
  | .opening, .symbol .leftBrace => some .pair
  | .pair, .symbol .rightBrace => some .block
  | .pair, .name _ => some .equals
  | .equals, .symbol .equals => some .value
  | .value, .string _ => some .pair
  | .value, .symbol .leftBracket => some .item
  | .value, .symbol .leftBrace => some .entry
  | .item, .symbol .rightBracket => some .pair
  | .item, .string _ => some .itemEnd
  | .itemEnd, .symbol .comma => some .item
  | .itemEnd, .symbol .rightBracket => some .pair
  | .entry, .symbol .rightBrace => some .pair
  | .entry, .name _ => some .entryEquals
  | .entryEquals, .symbol .equals => some .entryText
  | .entryText, .string _ => some .entryEnd
  | .entryEnd, .symbol .comma => some .entry
  | .entryEnd, .symbol .rightBrace => some .pair
  | .entryEnd, .name _ => some .entryEquals
  | _, _ => none

/-- What is waited for behind a row of lexemes. -/
def after (state : Awaiting) : List Lexeme → Option Awaiting
  | [] => some state
  | l :: ls => (state.next l).bind fun later => later.after ls

theorem after_append (state : Awaiting) (ls more : List Lexeme) :
    state.after (ls ++ more) = (state.after ls).bind fun later => later.after more := by
  induction ls generalizing state with
  | nil => rfl
  | cons l ls ih =>
    rw [List.cons_append, after, after]
    cases state.next l with
    | none => rfl
    | some later => exact ih later

/-! ## Bringing a file to its end -/

/-- Lexemes that may come last. -/
def closing : Awaiting → List Lexeme
  | .block => []
  | .title => [.string "", .symbol .leftBrace, .symbol .rightBrace]
  | .opening => [.symbol .leftBrace, .symbol .rightBrace]
  | .pair => [.symbol .rightBrace]
  | .equals => [.symbol .equals, .string "", .symbol .rightBrace]
  | .value => [.string "", .symbol .rightBrace]
  | .item => [.symbol .rightBracket, .symbol .rightBrace]
  | .itemEnd => [.symbol .rightBracket, .symbol .rightBrace]
  | .entry => [.symbol .rightBrace, .symbol .rightBrace]
  | .entryEquals => [.symbol .equals, .string "", .symbol .rightBrace, .symbol .rightBrace]
  | .entryText => [.string "", .symbol .rightBrace, .symbol .rightBrace]
  | .entryEnd => [.symbol .rightBrace, .symbol .rightBrace]

theorem after_closing (state : Awaiting) : state.after state.closing = some .block := by
  cases state <;> rfl

theorem spelled_of_mem_closing (state : Awaiting) : ∀ l ∈ state.closing, l.Spelled := by
  have hempty : (Lexeme.string "").Spelled := StringBody.nil
  have hsymbol (s : Symbol) : (Lexeme.symbol s).Spelled := trivial
  cases state <;> simp [closing, hempty, hsymbol]

/-- There is no use for what comes next: for the end of the tokens anywhere inside a block, or for
this token. -/
def Refuses (state : Awaiting) : Option Token → Prop
  | none => state ≠ .block
  | some t => state.next t.lexeme = none

end Awaiting

/-! ## Readers and states -/

/-- The lexemes of a row of tokens. -/
def lexemes (tokens : List Token) : List Lexeme := tokens.map (·.lexeme)

open Awaiting (Refuses)

/-- The tokens that are used up lead from `state` to `done`; or they lead to a state that has no use
for the token that is complained of. -/
def Follows {α : Type} (state done : Awaiting) (tokens : List Token) : Reading α → Prop
  | .ok (_, left) => ∃ used, tokens = used ++ left ∧ state.after (lexemes used) = some done
  | .error e => ∃ used rest stop, tokens = used ++ rest ∧
      state.after (lexemes used) = some stop ∧ e.found = rest.head? ∧ stop.Refuses rest.head?

namespace Follows

variable {α β : Type} {state later middle done : Awaiting} {tokens rest left : List Token}

theorem done_ok (a : α) (left : List Token) : Follows done done left (.ok (a, left)) :=
  ⟨[], rfl, rfl⟩

theorem refuse (wanted : Expectation) (h : state.Refuses tokens.head?) :
    Follows (α := α) state done tokens (.error ⟨wanted, tokens.head?⟩) :=
  ⟨[], tokens, state, rfl, rfl, rfl, h⟩

/-- One reading after another. -/
theorem trans {a : α} {r : Reading β} (h : Follows state middle tokens (.ok (a, left)))
    (hr : Follows middle done left r) : Follows state done tokens r := by
  obtain ⟨before, rfl, hbefore⟩ := h
  have hafter (used : List Token) :
      state.after (lexemes (before ++ used)) = middle.after (lexemes used) := by
    rw [lexemes, List.map_append, Awaiting.after_append]
    show (state.after (lexemes before)).bind _ = _
    rw [hbefore]
    rfl
  match r, hr with
  | .ok (_, left), ⟨used, htokens, hused⟩ =>
    exact ⟨before ++ used, by rw [htokens, List.append_assoc], by rw [hafter, hused]⟩
  | .error e, ⟨used, rest, stop, htokens, hused, hfound, hrefuses⟩ =>
    exact ⟨before ++ used, rest, stop, by rw [htokens, List.append_assoc], by rw [hafter, hused],
      hfound, hrefuses⟩

/-- After a reading that fails there is no other. -/
theorem stop {e : Unexpected} (h : Follows (α := α) state middle tokens (.error e)) :
    Follows (α := β) state done tokens (.error e) := h

/-- One more token in front. -/
theorem step {r : Reading α} {t : Token} (hnext : state.next t.lexeme = some later)
    (h : Follows later done rest r) : Follows state done (t :: rest) r := by
  have htoken : Follows state later (t :: rest) (.ok ((), rest)) := by
    refine ⟨[t], rfl, ?_⟩
    show (state.next t.lexeme).bind _ = _
    rw [hnext]
    rfl
  exact htoken.trans h

/-- What is made of what was read is all the same. -/
theorem map {r : Reading α} (h : Follows state done tokens r) (f : α → β) :
    Follows state done tokens (r.map fun (a, left) => (f a, left)) := by
  match r, h with
  | .ok _, h => exact h
  | .error _, h => exact h

end Follows

/-- A state inside a block has no use for the end of the tokens. -/
theorem Awaiting.refuses_head? {state : Awaiting} {tokens : List Token} (hstate : state ≠ .block)
    (h : ∀ l p rest, tokens = ⟨l, p⟩ :: rest → state.next l = none) :
    state.Refuses tokens.head? := by
  cases tokens with
  | nil => exact hstate
  | cons t rest => exact h t.lexeme t.position rest rfl

/-- A comma is all that tells the place behind an entry from the place in front of one. -/
theorem Awaiting.next_entryEnd {l : Lexeme} (h : l ≠ .symbol .comma) :
    next .entryEnd l = next .entry l := by
  cases l with
  | string text => rfl
  | name text => rfl
  | symbol s => cases s <;> first | rfl | exact absurd rfl h

/-! ## Values -/

theorem follows_readItems (tokens : List Token) :
    Follows .item .pair tokens (readItems tokens) := by
  fun_induction readItems tokens with
  | case1 p rest => exact .step rfl (.done_ok [] rest)
  | case2 item p q rest items left hrest ih =>
    rw [hrest] at ih
    exact .step rfl (.step rfl (ih.map (item :: ·)))
  | case3 item p q rest e hrest ih =>
    rw [hrest] at ih
    exact .step rfl (.step rfl (ih.map (item :: ·)))
  | case4 item p q rest => exact .step rfl (.step rfl (.done_ok [item] rest))
  | case5 item p rest hcomma hbracket =>
    refine .step rfl (.refuse _ (Awaiting.refuses_head? (by decide) ?_))
    rintro l q later rfl
    cases l with
    | symbol s => cases s <;> simp_all [Awaiting.next]
    | _ => rfl
  | case6 tokens hbracket _ _ hstring =>
    refine .refuse _ (Awaiting.refuses_head? (by decide) ?_)
    rintro l q later rfl
    cases l with
    | symbol s => cases s <;> simp_all [Awaiting.next]
    | string text => exact (hstring text q later rfl).elim
    | name text => rfl

/-- Where an entry may come, so it may behind another, unless a comma is next. -/
theorem Follows.entryEnd {α : Type} {tokens : List Token} {r : Reading α}
    (h : Follows .entry .pair tokens r)
    (hcomma : ∀ p rest, tokens = ⟨.symbol .comma, p⟩ :: rest → False) :
    Follows .entryEnd .pair tokens r := by
  have hnext : ∀ t rest, tokens = t :: rest →
      Awaiting.next .entryEnd t.lexeme = Awaiting.next .entry t.lexeme := by
    rintro ⟨l, p⟩ rest rfl
    refine Awaiting.next_entryEnd fun heq => hcomma p rest ?_
    rw [show l = .symbol .comma from heq]
  have hafter : ∀ t used rest, tokens = t :: used ++ rest →
      Awaiting.after .entryEnd (lexemes (t :: used)) =
        Awaiting.after .entry (lexemes (t :: used)) := by
    intro t used rest htokens
    rw [lexemes, List.map_cons, Awaiting.after, Awaiting.after, hnext t _ htokens]
  match r, h with
  | .ok (_, left), ⟨used, htokens, hused⟩ =>
    cases used with
    | nil => cases hused
    | cons t used => exact ⟨t :: used, htokens, by rw [hafter t used left htokens, hused]⟩
  | .error e, ⟨used, rest, stop, htokens, hused, hfound, hrefuses⟩ =>
    cases used with
    | nil =>
      cases hused
      refine ⟨[], rest, .entryEnd, htokens, rfl, hfound, ?_⟩
      cases rest with
      | nil => exact fun h => (nomatch h)
      | cons t rest =>
        rw [List.head?_cons, Awaiting.Refuses, hnext t rest htokens]
        exact hrefuses
    | cons t used =>
      exact ⟨t :: used, rest, stop, htokens, by rw [hafter t used rest htokens, hused], hfound,
        hrefuses⟩

theorem follows_readEntries (tokens : List Token) :
    Follows .entry .pair tokens (readEntries tokens) := by
  fun_induction readEntries tokens with
  | case1 p rest => exact .step rfl (.done_ok [] rest)
  | case2 key p q text r s rest entries left hrest ih =>
    rw [hrest] at ih
    exact .step rfl (.step rfl (.step rfl (.step rfl (ih.map ((key, text) :: ·)))))
  | case3 key p q text r s rest e hrest ih =>
    rw [hrest] at ih
    exact .step rfl (.step rfl (.step rfl (.step rfl (ih.map ((key, text) :: ·)))))
  | case4 key p q text r rest hcomma entries left hrest ih =>
    rw [hrest] at ih
    exact .step rfl (.step rfl (.step rfl ((ih.entryEnd hcomma).map ((key, text) :: ·))))
  | case5 key p q text r rest hcomma e hrest ih =>
    rw [hrest] at ih
    exact .step rfl (.step rfl (.step rfl ((ih.entryEnd hcomma).map ((key, text) :: ·))))
  | case6 key p q rest _ hstring =>
    refine .step rfl (.step rfl (.refuse _ (Awaiting.refuses_head? (by decide) ?_)))
    rintro l r later rfl
    cases l with
    | string text => exact (hstring text r later rfl).elim
    | _ => rfl
  | case7 key p rest _ _ hequals =>
    refine .step rfl (.refuse _ (Awaiting.refuses_head? (by decide) ?_))
    rintro l q later rfl
    cases l with
    | symbol s => cases s <;> simp_all [Awaiting.next]
    | _ => rfl
  | case8 tokens hbrace _ _ _ hname =>
    refine .refuse _ (Awaiting.refuses_head? (by decide) ?_)
    rintro l q later rfl
    cases l with
    | symbol s => cases s <;> simp_all [Awaiting.next]
    | name text => exact (hname text q later rfl).elim
    | string text => rfl

theorem follows_readValue (tokens : List Token) :
    Follows .value .pair tokens (readValue tokens) := by
  fun_cases readValue tokens with
  | case1 text p rest => exact .step rfl (.done_ok (Value.string text) rest)
  | case2 p rest items left hitems =>
    have hrest := follows_readItems rest
    rw [hitems] at hrest
    exact .step rfl (hrest.map Value.array)
  | case3 p rest e hitems =>
    have hrest := follows_readItems rest
    rw [hitems] at hrest
    exact .step rfl (hrest.map Value.array)
  | case4 p rest entries left hentries =>
    have hrest := follows_readEntries rest
    rw [hentries] at hrest
    exact .step rfl (hrest.map fun entries => Value.map (.ofList entries))
  | case5 p rest e hentries =>
    have hrest := follows_readEntries rest
    rw [hentries] at hrest
    exact .step rfl (hrest.map fun entries => Value.map (.ofList entries))
  | case6 tokens hstring hbracket hbrace =>
    refine .refuse _ (Awaiting.refuses_head? (by decide) ?_)
    rintro l q later rfl
    cases l with
    | symbol s => cases s <;> simp_all [Awaiting.next]
    | string text => exact (hstring text q later rfl).elim
    | name text => rfl

/-! ## Blocks -/

theorem follows_readPairs (tokens : List Token) :
    Follows .pair .block tokens (readPairs tokens) := by
  fun_induction readPairs tokens with
  | case1 p rest => exact .step rfl (.done_ok [] rest)
  | case2 key p q rest value left hvalue pairs left' hpairs ih =>
    have hfirst := follows_readValue rest
    rw [hvalue] at hfirst
    rw [hpairs] at ih
    exact .step rfl (.step rfl (.trans hfirst (ih.map (⟨key, value, p⟩ :: ·))))
  | case3 key p q rest value left hvalue e hpairs ih =>
    have hfirst := follows_readValue rest
    rw [hvalue] at hfirst
    rw [hpairs] at ih
    exact .step rfl (.step rfl (.trans hfirst (ih.map (⟨key, value, p⟩ :: ·))))
  | case4 key p q rest e hvalue =>
    have hfirst := follows_readValue rest
    rw [hvalue] at hfirst
    exact .step rfl (.step rfl hfirst.stop)
  | case5 key p rest hequals =>
    refine .step rfl (.refuse _ (Awaiting.refuses_head? (by decide) ?_))
    rintro l q later rfl
    cases l with
    | symbol s => cases s <;> simp_all [Awaiting.next]
    | _ => rfl
  | case6 tokens hbrace _ hname =>
    refine .refuse _ (Awaiting.refuses_head? (by decide) ?_)
    rintro l q later rfl
    cases l with
    | symbol s => cases s <;> simp_all [Awaiting.next]
    | name text => exact (hname text q later rfl).elim
    | string text => rfl

theorem follows_readBlock {tokens : List Token} (hne : tokens ≠ []) :
    Follows .block .block tokens (readBlock tokens) := by
  have hhead {kind : String} (p : Position)
      (h : kind = Block.workflowKind ∨ kind = Block.actionKind) :
      Awaiting.next .block (Token.mk (.name kind) p).lexeme = some .title := by
    show (if _ then _ else _) = _
    rw [if_pos h]
  fun_cases readBlock tokens with
  | case1 kind p hkind name q r rest pairs left hpairs =>
    have hrest := follows_readPairs rest
    rw [hpairs] at hrest
    exact .step (hhead p hkind) (.step rfl (.step rfl (hrest.map (Block.mk kind name p))))
  | case2 kind p hkind name q r rest e hpairs =>
    have hrest := follows_readPairs rest
    rw [hpairs] at hrest
    exact .step (hhead p hkind) (.step rfl (.step rfl hrest.stop))
  | case3 kind p hkind name q rest hbrace =>
    refine .step (hhead p hkind) (.step rfl (.refuse _ (Awaiting.refuses_head? (by decide) ?_)))
    rintro l r later rfl
    cases l with
    | symbol s => cases s <;> simp_all [Awaiting.next]
    | _ => rfl
  | case4 kind p hkind rest _ hstring =>
    refine .step (hhead p hkind) (.refuse _ (Awaiting.refuses_head? (by decide) ?_))
    rintro l q later rfl
    cases l with
    | string text => exact (hstring text q later rfl).elim
    | _ => rfl
  | case5 kind p rest hkind =>
    refine .refuse (α := Block) .blockHead ?_
    show (if _ then _ else _) = _
    rw [if_neg hkind]
  | case6 tokens hname =>
    refine .refuse _ ?_
    obtain ⟨t, rest, rfl⟩ := List.exists_cons_of_ne_nil hne
    obtain ⟨l, p⟩ := t
    cases l with
    | name text => exact (hname text p rest rfl).elim
    | _ => rfl

/-- Reading a file. -/
theorem follows_readBlocks (tokens : List Token) :
    Follows .block .block tokens ((readBlocks tokens).map (·, [])) := by
  fun_induction readBlocks tokens with
  | case1 => exact .done_ok [] []
  | case2 t rest block left hblock blocks hblocks ih =>
    have hfirst := follows_readBlock (List.cons_ne_nil t rest)
    rw [hblock] at hfirst
    rw [hblocks] at ih
    exact .trans hfirst (ih.map (block :: ·))
  | case3 t rest block left hblock e hblocks ih =>
    have hfirst := follows_readBlock (List.cons_ne_nil t rest)
    rw [hblock] at hfirst
    rw [hblocks] at ih
    exact .trans hfirst (ih.map (block :: ·))
  | case4 t rest e hblock =>
    have hfirst := follows_readBlock (List.cons_ne_nil t rest)
    rw [hblock] at hfirst
    exact hfirst.stop

/-! ## Files -/

/-- Behind a token that is refused nothing leads anywhere. -/
theorem Awaiting.after_ne_block {stop : Awaiting} {rest : List Token}
    (h : stop.Refuses rest.head?) : stop.after (lexemes rest) ≠ some .block := by
  cases rest with
  | nil =>
    intro heq
    exact h (Option.some.inj heq)
  | cons t rest =>
    have hnext : stop.next t.lexeme = none := h
    rw [lexemes, List.map_cons, after, hnext]
    exact fun heq => (nomatch heq)

/-- Tokens are a file when they lead from one block to another. -/
theorem readBlocks_isOk_iff {tokens : List Token} :
    (∃ blocks, readBlocks tokens = .ok blocks) ↔
      Awaiting.after .block (lexemes tokens) = some .block := by
  have h := follows_readBlocks tokens
  cases hread : readBlocks tokens with
  | ok blocks =>
    rw [hread] at h
    obtain ⟨used, htokens, hused⟩ := h
    rw [List.append_nil] at htokens
    rw [htokens]
    exact ⟨fun _ => hused, fun _ => ⟨blocks, rfl⟩⟩
  | error e =>
    rw [hread] at h
    obtain ⟨used, rest, stop, htokens, hused, -, hrefuses⟩ := h
    refine ⟨fun ⟨blocks, hblocks⟩ => (nomatch hblocks), fun hafter => ?_⟩
    rw [htokens, lexemes, List.map_append, Awaiting.after_append] at hafter
    rw [show Awaiting.after .block (used.map (·.lexeme)) = some stop from hused] at hafter
    exact absurd hafter (Awaiting.after_ne_block hrefuses)

end ContainerFlow
