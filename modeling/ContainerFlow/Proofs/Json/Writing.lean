/-
ContainerFlow.Proofs.Json.Writing — what is written is a JSON document.

`Json.tree` is what a value says, and `writesDocument_render` that its
text is a document that says this, whatever the strings in it hold and
however deep the value is nested.  The blanks of the layout stand where
the grammar has blanks: those in front of an item belong to the item,
and those in front of the closing bracket to the last one.
-/
import ContainerFlow.Proofs.Json.Grammar

namespace ContainerFlow.Json

mutual
/-- What a value says. -/
def tree : Json → Tree
  | .null => .null
  | .number n => .number (Nat.toDigits 10 n)
  | .string text => .string text
  | .array items => .array (treesOf items)
  | .object members => .object (namedTreesOf members)

def treesOf : List Json → List Tree
  | [] => []
  | item :: rest => item.tree :: treesOf rest

def namedTreesOf : List (String × Json) → List (String × Tree)
  | [] => []
  | (name, value) :: rest => (name, value.tree) :: namedTreesOf rest
end

theorem treesOf_eq_map (items : List Json) : treesOf items = items.map tree := by
  induction items with
  | nil => rfl
  | cons item rest ih => rw [treesOf, ih, List.map_cons]

theorem namedTreesOf_eq_map (members : List (String × Json)) :
    namedTreesOf members = members.map fun (name, value) => (name, value.tree) := by
  induction members with
  | nil => rfl
  | cons member rest ih => rw [namedTreesOf, ih, List.map_cons]

/-! ## Strings -/

theorem hexValue?_hexDigit {n : Nat} (h : n < 16) : hexValue? (Text.hexDigit n) = some n := by
  have hall : ∀ n < 16, hexValue? (Text.hexDigit n) = some n := by decide
  exact hall n h

theorem writesUnit_hexDigits {n : Nat} (h : n < 0x10000) :
    WritesUnit ('\\' :: 'u' :: Text.hexDigits 4 n) n := by
  have hunit := WritesUnit.mk (hexValue?_hexDigit (Nat.mod_lt (n / 16 / 16 / 16) (by decide)))
    (hexValue?_hexDigit (Nat.mod_lt (n / 16 / 16) (by decide)))
    (hexValue?_hexDigit (Nat.mod_lt (n / 16) (by decide)))
    (hexValue?_hexDigit (Nat.mod_lt n (by decide)))
  have hsum : (((n / 16 / 16 / 16 % 16) * 16 + n / 16 / 16 % 16) * 16 + n / 16 % 16) * 16 + n % 16
      = n := by
    omega
  rw [hsum] at hunit
  exact hunit

/-- A character is written by itself or by an escape that stands for it. -/
theorem writesChar_stringChar (c : Char) : WritesChar (stringChar c) c := by
  unfold stringChar
  split
  · next h =>
    subst h
    exact .escape (by decide)
  next hquote =>
  split
  · next h =>
    subst h
    exact .escape (by decide)
  next hbackslash =>
  split
  · next h =>
    subst h
    exact .escape (by decide)
  split
  · next h =>
    subst h
    exact .escape (by decide)
  split
  · next h =>
    subst h
    exact .escape (by decide)
  split
  · next h =>
    subst h
    exact .escape (by decide)
  split
  · next h =>
    subst h
    exact .escape (by decide)
  split
  · next h => exact .unit (writesUnit_hexDigits (h.trans (by decide)))
  · next h => exact .unescaped (Nat.le_of_not_lt h) hquote hbackslash

theorem writesChars_flatMap (text : List Char) : WritesChars (text.flatMap stringChar) text := by
  induction text with
  | nil => exact .nil
  | cons c rest ih => exact .cons (writesChar_stringChar c) ih

theorem writesString_writeString (text : String) : WritesString (writeString text) text :=
  .mk (writesChars_flatMap text.toList)

/-! ## Numbers -/

theorem head?_toDigits_ne_zero {n : Nat} (h : 0 < n) : (Nat.toDigits 10 n).head? ≠ some '0' := by
  induction n using Nat.strong_induction_on with
  | _ n ih =>
    by_cases hn : n < 10
    · have hdigit : ∀ n < 10, 0 < n → Nat.digitChar n ≠ '0' := by decide
      rw [Nat.toDigits_of_lt_base hn]
      simpa using hdigit n hn h
    · rw [Nat.toDigits_of_base_le (by decide) (Nat.le_of_not_lt hn),
        List.head?_append_of_ne_nil _ Nat.toDigits_ne_nil]
      exact ih (n / 10) (by omega) (by omega)

theorem whole_toDigits (n : Nat) : Whole (Nat.toDigits 10 n) := by
  refine ⟨⟨Nat.toDigits_ne_nil, fun c hc => ?_⟩, fun hzero => ?_⟩
  · exact Nat.isDigit_of_mem_toDigits (by decide) (by decide) hc
  · rcases Nat.eq_zero_or_pos n with rfl | hn
    · rfl
    · exact absurd hzero (head?_toDigits_ne_zero hn)

theorem writesNumber_toDigits (n : Nat) : WritesNumber (Nat.toDigits 10 n) := by
  simpa using WritesNumber.mk (.inl rfl) (whole_toDigits n) .absent .absent

/-! ## Rows -/

section Rows

variable {α : Type} {phrase : List Char → α → Prop} {cs ds : List Char} {a b : α} {as : List α}

theorem blanks_nil : Blanks [] := fun _ h => nomatch h

theorem blanks_newLine (depth : Nat) : Blanks (newLine depth) := by
  intro c hc
  rcases List.mem_cons.mp hc with rfl | hc
  · rfl
  · rw [List.eq_of_mem_replicate hc]
    rfl

theorem Listed.singleton (h : phrase cs a) : Listed phrase cs [a] := by
  rw [← List.append_nil cs]
  exact .some h .nil

/-- One more phrase in front of a row that is not empty. -/
theorem Listed.push (hrow : Listed phrase ds (b :: as)) (h : phrase cs a) :
    Listed phrase (cs ++ ',' :: ds) (a :: b :: as) := by
  cases hrow with
  | some first more => exact .some h (.cons first more)

end Rows

/-! ## Values -/

/-- A name, a colon and a blank in front of the text of a value. -/
theorem WritesValue.member {cs after : List Char} {v : Tree} (h : WritesValue cs v) (depth : Nat)
    (name : String) (hafter : Blanks after) :
    WritesMember WritesValue (newLine depth ++ (writeString name ++ ':' :: ' ' :: (cs ++ after)))
      (name, v) := by
  have hblank : Blanks [' '] := by
    rintro c (_ | ⟨_, ⟨⟩⟩)
    rfl
  have hname := Spaced.mk (blanks_newLine depth) (writesString_writeString name) blanks_nil
  simpa using WritesMember.mk hname (.mk hblank h hafter)

mutual
/-- A value is written by its text, at any depth. -/
theorem writesValue_write (depth : Nat) : (j : Json) → WritesValue (write depth j) j.tree
  | .null => .null
  | .number n => .number (writesNumber_toDigits n)
  | .string text => .string (writesString_writeString text)
  | .array [] => .array (.none blanks_nil)
  | .array (item :: rest) => by
    rw [write, List.cons_append, List.cons_append, tree]
    exact .array (listed_writeItems (depth + 1) (blanks_newLine depth) (item :: rest) (by simp))
  | .object [] => .object (.none blanks_nil)
  | .object (member :: rest) => by
    rw [write, List.cons_append, List.cons_append, tree]
    exact .object
      (listed_writeMembers (depth + 1) (blanks_newLine depth) (member :: rest) (by simp))

/-- Items are a row; blanks behind them belong to the last one. -/
theorem listed_writeItems (depth : Nat) {after : List Char} (hafter : Blanks after) :
    (items : List Json) → items ≠ [] →
      Listed (Spaced WritesValue) (writeItems depth items ++ after) (treesOf items)
  | [], h => absurd rfl h
  | [item], _ => by
    have hitem := Spaced.mk (blanks_newLine depth) (writesValue_write depth item) hafter
    simpa [writeItems, separator, treesOf] using Listed.singleton hitem
  | item :: next :: rest, _ => by
    have hitem := Spaced.mk (blanks_newLine depth) (writesValue_write depth item) blanks_nil
    have hrow := listed_writeItems depth hafter (next :: rest) (by simp)
    rw [writeItems]
    simpa [separator, treesOf] using hrow.push hitem

/-- Members are a row; blanks behind them belong to the last one. -/
theorem listed_writeMembers (depth : Nat) {after : List Char} (hafter : Blanks after) :
    (members : List (String × Json)) → members ≠ [] →
      Listed (WritesMember WritesValue) (writeMembers depth members ++ after)
        (namedTreesOf members)
  | [], h => absurd rfl h
  | [(name, value)], _ => by
    have hmember := (writesValue_write depth value).member depth name hafter
    simpa [writeMembers, separator, namedTreesOf] using Listed.singleton hmember
  | (name, value) :: (other, next) :: rest, _ => by
    have hmember := (writesValue_write depth value).member depth name blanks_nil
    have hrow := listed_writeMembers depth hafter ((other, next) :: rest) (by simp)
    rw [writeMembers]
    simpa [separator, namedTreesOf] using hrow.push hmember
end

/-- Blanks behind a document belong to it. -/
theorem WritesDocument.append_blanks {text after : List Char} {v : Tree}
    (h : WritesDocument text v) (hafter : Blanks after) : WritesDocument (text ++ after) v := by
  obtain ⟨front, inner, back⟩ := h
  rw [List.append_assoc, List.append_assoc]
  exact .mk front inner (List.forall_mem_append.mpr ⟨back, hafter⟩)

/-- What is rendered is a document that says what the value says. -/
theorem writesDocument_render (j : Json) : WritesDocument j.render.toList j.tree := by
  have h := Spaced.mk blanks_nil (writesValue_write 0 j) blanks_nil
  simpa [WritesDocument, render] using h

end ContainerFlow.Json
