/-
ContainerFlow.Proofs.Json.Grammar — the grammar of JSON documents, and
that no text is a document in two ways.

The grammar is given rule by rule, as relations between texts and what
they write:

    document = blank* value blank*
    value    = "null" | "true" | "false" | number | string | array | object
    array    = "[" (blank* | element ("," element)*) "]"
    object   = "{" (blank* | member ("," member)*) "}"
    element  = blank* value blank*
    member   = blank* string blank* ":" element
    string   = quote char* quote
    char     = unescaped | "\" name | unit | high-unit low-unit
    unit     = "\u" hex hex hex hex
    number   = "-"? whole ("." digit+)? (("e" | "E") ("+" | "-")? digit+)?
    whole    = "0" | nonzero-digit digit*

Of a number the literal is kept; what it is worth is for its reader to
say.  A pair of units writes one character above U+FFFF, and half a pair
writes none.

That a text says one thing only (`WritesDocument.unique`) follows from
what its beginning says: wherever a phrase may begin, no more than one
can be read (`ReadsOnce`), if what is left behind it is as it has to be
behind such a phrase.  Rules that are made of others carry this on;
values are made of shorter ones, so the induction is on the text.
-/
import Mathlib.Data.List.Infix
import ContainerFlow.Json

namespace ContainerFlow.Json

/-- What a JSON text says.  A number is the literal that it is written with. -/
inductive Tree where
  | null
  | boolean (b : Bool)
  | number (literal : List Char)
  | string (text : String)
  | array (items : List Tree)
  | object (members : List (String × Tree))

/-! ## The grammar -/

variable {α : Type} {phrase : List Char → α → Prop}

def isBlank (c : Char) : Bool := c = ' ' || c = '\t' || c = '\n' || c = '\r'

def Blanks (cs : List Char) : Prop := ∀ c ∈ cs, isBlank c

/-- A phrase between blanks. -/
inductive Spaced (phrase : List Char → α → Prop) : List Char → α → Prop where
  | mk {before cs after : List Char} {a : α} (front : Blanks before) (inner : phrase cs a)
      (back : Blanks after) : Spaced phrase (before ++ (cs ++ after)) a

/-- Any number of phrases, a comma in front of each. -/
inductive Following (phrase : List Char → α → Prop) : List Char → List α → Prop where
  | nil : Following phrase [] []
  | cons {cs ds : List Char} {a : α} {as : List α} (next : phrase cs a)
      (rest : Following phrase ds as) : Following phrase (',' :: (cs ++ ds)) (a :: as)

/-- Any number of phrases with commas between them. -/
inductive Listed (phrase : List Char → α → Prop) : List Char → List α → Prop where
  | none {cs : List Char} (blanks : Blanks cs) : Listed phrase cs []
  | some {cs ds : List Char} {a : α} {as : List α} (first : phrase cs a)
      (more : Following phrase ds as) : Listed phrase (cs ++ ds) (a :: as)

/-- The digits of numbers in escapes. -/
def hexValue? (c : Char) : Option Nat :=
  if c.isDigit then some (c.toNat - 0x30)
  else if 'a' ≤ c ∧ c ≤ 'f' then some (c.toNat - 0x57)
  else if 'A' ≤ c ∧ c ≤ 'F' then some (c.toNat - 0x37)
  else none

/-- A number of four hexadecimal digits. -/
inductive WritesUnit : List Char → Nat → Prop where
  | mk {c₃ c₂ c₁ c₀ : Char} {d₃ d₂ d₁ d₀ : Nat} (h₃ : hexValue? c₃ = some d₃)
      (h₂ : hexValue? c₂ = some d₂) (h₁ : hexValue? c₁ = some d₁) (h₀ : hexValue? c₀ = some d₀) :
      WritesUnit ['\\', 'u', c₃, c₂, c₁, c₀] (((d₃ * 16 + d₂) * 16 + d₁) * 16 + d₀)

/-- The characters that have an escape of their own, behind its name. -/
def escapes : List (Char × Char) :=
  [('\x22', '\x22'), ('\\', '\\'), ('/', '/'), ('b', '\x08'), ('f', '\x0c'), ('n', '\n'),
    ('r', '\r'), ('t', '\t')]

/-- A character in a string. -/
inductive WritesChar : List Char → Char → Prop where
  | unescaped {c : Char} (printable : 0x20 ≤ c.toNat) (not_quote : c ≠ '\x22')
      (not_backslash : c ≠ '\\') : WritesChar [c] c
  | escape {name c : Char} (named : (name, c) ∈ escapes) : WritesChar ['\\', name] c
  | unit {cs : List Char} {c : Char} (unit : WritesUnit cs c.toNat) : WritesChar cs c
  | pair {cs ds : List Char} {high low : Nat} {c : Char} (first : WritesUnit cs high)
      (second : WritesUnit ds low) (high_ge : 0xD800 ≤ high) (high_lt : high < 0xDC00)
      (low_ge : 0xDC00 ≤ low) (low_lt : low < 0xE000)
      (code : c.toNat = 0x10000 + (high - 0xD800) * 0x400 + (low - 0xDC00)) :
      WritesChar (cs ++ ds) c

/-- The characters of a string. -/
inductive WritesChars : List Char → List Char → Prop where
  | nil : WritesChars [] []
  | cons {cs ds text : List Char} {c : Char} (first : WritesChar cs c)
      (rest : WritesChars ds text) : WritesChars (cs ++ ds) (c :: text)

inductive WritesString : List Char → String → Prop where
  | mk {cs : List Char} {text : String} (inner : WritesChars cs text.toList) :
      WritesString ('\x22' :: (cs ++ ['\x22'])) text

/-- One digit or more. -/
def Digits (cs : List Char) : Prop := cs ≠ [] ∧ ∀ c ∈ cs, c.isDigit

/-- The digits of a whole number: no zero in front of others. -/
def Whole (cs : List Char) : Prop := Digits cs ∧ (cs.head? = some '0' → cs = ['0'])

inductive WritesFraction : List Char → Prop where
  | absent : WritesFraction []
  | present {ds : List Char} (digits : Digits ds) : WritesFraction ('.' :: ds)

inductive WritesExponent : List Char → Prop where
  | absent : WritesExponent []
  | present {e : Char} {sign ds : List Char} (letter : e = 'e' ∨ e = 'E')
      (signed : sign ∈ [[], ['+'], ['-']]) (digits : Digits ds) : WritesExponent (e :: (sign ++ ds))

inductive WritesNumber : List Char → Prop where
  | mk {sign whole fraction exponent : List Char} (signed : sign = [] ∨ sign = ['-'])
      (whole_digits : Whole whole) (point : WritesFraction fraction)
      (power : WritesExponent exponent) :
      WritesNumber (sign ++ (whole ++ (fraction ++ exponent)))

/-- A name with what `value` writes. -/
inductive WritesMember (value : List Char → α → Prop) : List Char → String × α → Prop where
  | mk {ns vs : List Char} {name : String} {a : α} (named : Spaced WritesString ns name)
      (element : Spaced value vs a) : WritesMember value (ns ++ ':' :: vs) (name, a)

inductive WritesValue : List Char → Tree → Prop where
  | null : WritesValue ['n', 'u', 'l', 'l'] .null
  | true : WritesValue ['t', 'r', 'u', 'e'] (.boolean true)
  | false : WritesValue ['f', 'a', 'l', 's', 'e'] (.boolean false)
  | number {cs : List Char} (digits : WritesNumber cs) : WritesValue cs (.number cs)
  | string {cs : List Char} {text : String} (quoted : WritesString cs text) :
      WritesValue cs (.string text)
  | array {cs : List Char} {items : List Tree} (inner : Listed (Spaced WritesValue) cs items) :
      WritesValue ('[' :: (cs ++ [']'])) (.array items)
  | object {cs : List Char} {members : List (String × Tree)}
      (inner : Listed (WritesMember WritesValue) cs members) :
      WritesValue ('\x7b' :: (cs ++ ['\x7d'])) (.object members)

def WritesDocument : List Char → Tree → Prop := Spaced WritesValue

/-! ## How phrases begin and what may follow them -/

inductive Kind where
  | null
  | boolean (b : Bool)
  | number
  | string
  | array
  | object

def Tree.kind : Tree → Kind
  | .null => .null
  | .boolean b => .boolean b
  | .number _ => .number
  | .string _ => .string
  | .array _ => .array
  | .object _ => .object

/-- The kind of the values whose texts begin with a character. -/
def kind? (c : Char) : Option Kind :=
  if c = '-' ∨ c.isDigit then some .number
  else if c = 'n' then some .null
  else if c = 't' then some (.boolean true)
  else if c = 'f' then some (.boolean false)
  else if c = '\x22' then some .string
  else if c = '[' then some .array
  else if c = '\x7b' then some .object
  else none

/-- Texts of phrases begin, behind blanks, as those of values do. -/
def Begins (phrase : List Char → α → Prop) : Prop :=
  ∀ cs a, phrase cs a → ∃ before c rest, Blanks before ∧ cs = before ++ c :: rest ∧
    (kind? c).isSome

/-- Texts of phrases have no blanks in front. -/
def BeginsAtOnce (phrase : List Char → α → Prop) : Prop :=
  ∀ cs a, phrase cs a → ∃ c rest, cs = c :: rest ∧ (kind? c).isSome

/-- The first of the characters that are left, if there are any, is one of these. -/
def Before (p : Char → Bool) (left : List Char) : Prop := ∀ c, left.head? = some c → p c

/-- What closes an array or an object. -/
def closes (c : Char) : Bool := c = ']' || c = '\x7d'

/-- What stands behind an element or a member. -/
def delimits (c : Char) : Bool := c = ',' || closes c

def isNumberChar (c : Char) : Bool :=
  c.isDigit || c = '-' || c = '+' || c = '.' || c = 'e' || c = 'E'

theorem kind?_of_isBlank {c : Char} (h : isBlank c) : kind? c = none := by
  simp only [isBlank, Bool.or_eq_true, decide_eq_true_eq] at h
  rcases h with ((rfl | rfl) | rfl) | rfl <;> rfl

theorem kind?_of_closes {c : Char} (h : closes c) : kind? c = none := by
  simp only [closes, Bool.or_eq_true, decide_eq_true_eq] at h
  rcases h with rfl | rfl <;> rfl

theorem isBlank_of_delimits {c : Char} (h : delimits c) : isBlank c = false := by
  simp only [delimits, closes, Bool.or_eq_true, decide_eq_true_eq] at h
  rcases h with rfl | rfl | rfl <;> rfl

theorem isNumberChar_of_delimits {c : Char} (h : delimits c) : isNumberChar c = false := by
  simp only [delimits, closes, Bool.or_eq_true, decide_eq_true_eq] at h
  rcases h with rfl | rfl | rfl <;> rfl

theorem isNumberChar_of_isBlank {c : Char} (h : isBlank c) : isNumberChar c = false := by
  simp only [isBlank, Bool.or_eq_true, decide_eq_true_eq] at h
  rcases h with ((rfl | rfl) | rfl) | rfl <;> rfl

theorem Before.imp {p q : Char → Bool} {left : List Char} (h : Before p left)
    (hpq : ∀ c, p c → q c) : Before q left :=
  fun c hc => hpq c (h c hc)

theorem Before.cons {p : Char → Bool} {c : Char} (h : p c) (left : List Char) :
    Before p (c :: left) := by
  rintro d ⟨⟩
  exact h

/-- Blanks in front of something else are what is dropped as long as there are blanks. -/
theorem dropWhile_blanks {before left : List Char} (h : Blanks before)
    (hleft : Before (fun c => !isBlank c) left) : (before ++ left).dropWhile isBlank = left := by
  induction before with
  | nil =>
    cases left with
    | nil => rfl
    | cons c rest =>
      have hc : isBlank c = false := by simpa using hleft c rfl
      simp [hc]
  | cons c rest ih =>
    obtain ⟨hc, hrest⟩ := List.forall_mem_cons.mp h
    simp [hc, ih hrest]

theorem before_of_kind? {c : Char} (h : (kind? c).isSome) (left : List Char) :
    Before (fun c => !isBlank c) (c :: left) := by
  refine .cons ?_ left
  cases hc : isBlank c with
  | false => rfl
  | true =>
    rw [kind?_of_isBlank hc] at h
    cases h

theorem Spaced.begins (h : BeginsAtOnce phrase) : Begins (Spaced phrase) := by
  rintro _ a ⟨front, inner, back⟩
  obtain ⟨c, rest, rfl, hc⟩ := h _ _ inner
  exact ⟨_, c, _, front, rfl, hc⟩

theorem WritesString.beginsAtOnce : BeginsAtOnce WritesString := by
  rintro _ text ⟨inner⟩
  exact ⟨_, _, rfl, rfl⟩

theorem WritesMember.begins {value : List Char → α → Prop} : Begins (WritesMember value) := by
  rintro _ _ ⟨named, element⟩
  obtain ⟨before, c, rest, hbefore, rfl, hc⟩ := Spaced.begins WritesString.beginsAtOnce _ _ named
  exact ⟨before, c, _, hbefore, List.append_assoc .., hc⟩

theorem WritesNumber.exists_kind? {cs : List Char} (h : WritesNumber cs) :
    ∃ c rest, cs = c :: rest ∧ kind? c = some .number := by
  obtain ⟨signed, ⟨⟨hne, hdigits⟩, -⟩, -, -⟩ := h
  rcases signed with rfl | rfl
  · obtain ⟨c, rest, rfl⟩ := List.exists_cons_of_ne_nil hne
    exact ⟨c, _, rfl, if_pos (.inr (hdigits c List.mem_cons_self))⟩
  · exact ⟨'-', _, rfl, rfl⟩

/-- The first character of a text tells the kind of the value. -/
theorem WritesValue.exists_kind? {cs : List Char} {v : Tree} (h : WritesValue cs v) :
    ∃ c rest, cs = c :: rest ∧ kind? c = some v.kind := by
  cases h with
  | null => exact ⟨_, _, rfl, rfl⟩
  | true => exact ⟨_, _, rfl, rfl⟩
  | false => exact ⟨_, _, rfl, rfl⟩
  | number digits => exact digits.exists_kind?
  | string quoted =>
    cases quoted
    exact ⟨_, _, rfl, rfl⟩
  | array => exact ⟨_, _, rfl, rfl⟩
  | object => exact ⟨_, _, rfl, rfl⟩

theorem WritesValue.beginsAtOnce : BeginsAtOnce WritesValue := by
  intro cs v h
  obtain ⟨c, rest, hcs, hc⟩ := h.exists_kind?
  exact ⟨c, rest, hcs, by rw [hc]; rfl⟩

/-- Behind the first of a row of phrases comes what may stand behind a phrase. -/
theorem Following.before_delimits {ds : List Char} {as : List α} (h : Following phrase ds as)
    {left : List Char} (hleft : Before closes left) : Before delimits (ds ++ left) := by
  cases h with
  | nil => exact hleft.imp fun c hc => by simp [delimits, hc]
  | cons => exact .cons rfl _

/-! ## One reading -/

/-- Wherever in `text` a phrase begins, only one can be read, when what is left behind it has to be
as `ends` says. -/
def ReadsOnce (phrase : List Char → α → Prop) (ends : List Char → Prop) (text : List Char) : Prop :=
  ∀ cs a left cs' a' left', phrase cs a → phrase cs' a' → cs ++ left <:+ text →
    cs' ++ left' = cs ++ left → ends left → ends left' → a' = a ∧ left' = left

namespace ReadsOnce

variable {text : List Char} {inner outer : List Char → Prop}

theorem spaced (h : ReadsOnce phrase inner text) (hbegins : BeginsAtOnce phrase)
    (hinner : ∀ after left, Blanks after → outer left → inner (after ++ left))
    (houter : ∀ left, outer left → Before (fun c => !isBlank c) left) :
    ReadsOnce (Spaced phrase) outer text := by
  rintro _ a left _ a' left' ⟨front, ha, back⟩ ⟨front', ha', back'⟩ hsuffix heq hleft hleft'
  simp only [List.append_assoc] at hsuffix heq
  have hskip {before cs rest : List Char} {b : α} (hbefore : Blanks before) (hb : phrase cs b) :
      (before ++ (cs ++ rest)).dropWhile isBlank = cs ++ rest := by
    obtain ⟨c, cs, rfl, hc⟩ := hbegins _ _ hb
    exact dropWhile_blanks hbefore (before_of_kind? hc _)
  -- Both readings have the same blanks in front, as neither phrase begins with one.
  have hsame := congrArg (List.dropWhile isBlank) heq
  rw [hskip front ha, hskip front' ha'] at hsame
  obtain ⟨rfl, hrest⟩ := h _ _ _ _ _ _ ha ha' ((List.suffix_append _ _).trans hsuffix) hsame
    (hinner _ _ back hleft) (hinner _ _ back' hleft')
  have hdrop := congrArg (List.dropWhile isBlank) hrest
  rw [dropWhile_blanks back (houter _ hleft), dropWhile_blanks back' (houter _ hleft')] at hdrop
  exact ⟨rfl, hdrop⟩

theorem following (h : ReadsOnce phrase (Before delimits) text) :
    ReadsOnce (Following phrase) (Before closes) text := by
  intro cs as left cs' as' left' has has' hsuffix heq hleft hleft'
  induction has generalizing cs' as' with
  | nil =>
    cases has' with
    | nil => exact ⟨rfl, heq⟩
    | cons =>
      have hcomma : closes ',' := hleft ',' (by rw [← List.nil_append left, ← heq]; rfl)
      cases hcomma
  | cons next rest ih =>
    cases has' with
    | nil =>
      have hcomma : closes ',' := hleft' ',' (by rw [← List.nil_append left', heq]; rfl)
      cases hcomma
    | cons next' rest' =>
      simp only [List.cons_append, List.append_assoc, List.cons.injEq, true_and] at heq hsuffix
      have hlater := (List.suffix_cons _ _).trans hsuffix
      obtain ⟨rfl, hmore⟩ := h _ _ _ _ _ _ next next' hlater heq
        (rest.before_delimits hleft) (rest'.before_delimits hleft')
      obtain ⟨rfl, hsame⟩ := ih _ _ rest' ((List.suffix_append _ _).trans hlater) hmore
      exact ⟨rfl, hsame⟩

/-- Blanks alone are not read where a phrase is. -/
theorem false_of_blanks (hbegins : Begins phrase) {before cs ds left left' : List Char} {a : α}
    (hbefore : Blanks before) (ha : phrase cs a) (heq : before ++ left = cs ++ ds ++ left')
    (hleft : Before closes left) : False := by
  obtain ⟨front, c, rest, hfront, rfl, hc⟩ := hbegins _ _ ha
  have hdrop := congrArg (List.dropWhile isBlank) heq
  simp only [List.append_assoc, List.cons_append] at hdrop
  rw [dropWhile_blanks hbefore (hleft.imp fun d hd => ?_),
    dropWhile_blanks hfront (before_of_kind? hc _)] at hdrop
  · have hcloses : closes c := hleft c (by rw [hdrop]; rfl)
    rw [kind?_of_closes hcloses] at hc
    cases hc
  · rw [isBlank_of_delimits (by simp [delimits, hd])]
    rfl

theorem listed (h : ReadsOnce phrase (Before delimits) text) (hbegins : Begins phrase) :
    ReadsOnce (Listed phrase) (Before closes) text := by
  have hclosed (left : List Char) (hleft : Before closes left) :
      Before (fun c => !isBlank c) left :=
    hleft.imp fun c hc => by rw [isBlank_of_delimits (by simp [delimits, hc])]; rfl
  intro cs as left cs' as' left' has has' hsuffix heq hleft hleft'
  cases has with
  | none blanks =>
    cases has' with
    | none blanks' =>
      have hdrop := congrArg (List.dropWhile isBlank) heq
      rw [dropWhile_blanks blanks (hclosed _ hleft),
        dropWhile_blanks blanks' (hclosed _ hleft')] at hdrop
      exact ⟨rfl, hdrop⟩
    | some first' => exact (false_of_blanks hbegins blanks first' heq.symm hleft).elim
  | some first more =>
    cases has' with
    | none blanks' => exact (false_of_blanks hbegins blanks' first heq hleft').elim
    | some first' more' =>
      rw [List.append_assoc, List.append_assoc] at heq
      rw [List.append_assoc] at hsuffix
      obtain ⟨rfl, hmore⟩ := h _ _ _ _ _ _ first first' hsuffix heq
        (more.before_delimits hleft) (more'.before_delimits hleft')
      obtain ⟨rfl, hsame⟩ := h.following _ _ _ _ _ _ more more'
        ((List.suffix_append _ _).trans hsuffix) hmore hleft hleft'
      exact ⟨rfl, hsame⟩

end ReadsOnce

/-! ## Strings -/

theorem WritesUnit.eq_of_append_eq {us us' left left' : List Char} {n n' : Nat}
    (h : WritesUnit us n) (h' : WritesUnit us' n') (heq : us' ++ left' = us ++ left) : n' = n ∧ left' = left := by
  obtain ⟨h₃, h₂, h₁, h₀⟩ := h
  obtain ⟨h₃', h₂', h₁', h₀'⟩ := h'
  simp only [List.cons_append, List.nil_append, List.cons.injEq, true_and] at heq
  obtain ⟨rfl, rfl, rfl, rfl, rfl⟩ := heq
  rw [h₃] at h₃'
  rw [h₂] at h₂'
  rw [h₁] at h₁'
  rw [h₀] at h₀'
  cases h₃'
  cases h₂'
  cases h₁'
  cases h₀'
  exact ⟨rfl, rfl⟩

theorem WritesUnit.eq_cons {us : List Char} {n : Nat} (h : WritesUnit us n) :
    ∃ digits, us = '\\' :: 'u' :: digits := by
  cases h
  exact ⟨_, rfl⟩

/-- A unit that is half of a pair is no character. -/
theorem not_isSurrogate (c : Char) : ¬ (0xD800 ≤ c.toNat ∧ c.toNat < 0xE000) := by
  rintro ⟨hge, hlt⟩
  rcases c.valid with h | h
  · exact absurd hge (Nat.not_le.mpr h)
  · exact absurd hlt (Nat.not_lt.mpr (Nat.succ_le_of_lt h.1))

namespace WritesChar

variable {cs us left left' : List Char} {c d name : Char}

/-- What begins with no backslash is a character that is written as it is. -/
theorem of_unescaped (h : WritesChar cs c) (hd : d ≠ '\\') (heq : cs ++ left' = d :: left) :
    c = d ∧ left' = left := by
  cases h with
  | unescaped =>
    cases heq
    exact ⟨rfl, rfl⟩
  | escape =>
    cases heq
    exact absurd rfl hd
  | unit unit =>
    obtain ⟨_, rfl⟩ := unit.eq_cons
    cases heq
    exact absurd rfl hd
  | pair first =>
    obtain ⟨_, rfl⟩ := first.eq_cons
    cases heq
    exact absurd rfl hd

theorem of_escape (h : WritesChar cs c) (hname : (name, d) ∈ escapes)
    (heq : cs ++ left' = '\\' :: name :: left) : c = d ∧ left' = left := by
  have hu : name ≠ 'u' := by
    rintro rfl
    revert hname
    simp [escapes]
  cases h with
  | unescaped _ _ not_backslash =>
    cases heq
    exact absurd rfl not_backslash
  | escape named =>
    cases heq
    have hone : ∀ e ∈ escapes, ∀ e' ∈ escapes, e.1 = e'.1 → e.2 = e'.2 := by decide
    exact ⟨hone _ named _ hname rfl, rfl⟩
  | unit unit =>
    obtain ⟨_, rfl⟩ := unit.eq_cons
    cases heq
    exact absurd rfl hu
  | pair first =>
    obtain ⟨_, rfl⟩ := first.eq_cons
    cases heq
    exact absurd rfl hu

/-- What begins with a unit is the character of the unit, or it is one of a pair of units. -/
theorem of_unit {n : Nat} (h : WritesChar cs c) (hunit : WritesUnit us n)
    (heq : cs ++ left' = us ++ left) :
    (c.toNat = n ∧ left' = left) ∨ (0xD800 ≤ n ∧ n < 0xDC00 ∧
      ∃ ds low, WritesUnit ds low ∧ 0xDC00 ≤ low ∧ low < 0xE000 ∧ ds ++ left' = left ∧
        c.toNat = 0x10000 + (n - 0xD800) * 0x400 + (low - 0xDC00)) := by
  cases h with
  | unescaped _ _ not_backslash =>
    obtain ⟨_, rfl⟩ := hunit.eq_cons
    cases heq
    exact absurd rfl not_backslash
  | escape named =>
    obtain ⟨_, rfl⟩ := hunit.eq_cons
    cases heq
    simp [escapes] at named
  | unit unit => exact .inl (hunit.eq_of_append_eq unit heq)
  | pair first second high_ge high_lt low_ge low_lt code =>
    rw [List.append_assoc] at heq
    obtain ⟨rfl, hrest⟩ := hunit.eq_of_append_eq first heq
    exact .inr ⟨high_ge, high_lt, _, _, second, low_ge, low_lt, hrest, code⟩

/-- No text begins with two characters of a string. -/
theorem eq_of_append_eq {ds : List Char} (h : WritesChar cs c) (h' : WritesChar ds d)
    (heq : ds ++ left' = cs ++ left) : d = c ∧ left' = left := by
  cases h with
  | unescaped _ _ not_backslash => exact h'.of_unescaped not_backslash heq
  | escape named => exact h'.of_escape named heq
  | unit unit =>
    rcases h'.of_unit unit heq with ⟨hcode, hleft⟩ | ⟨hge, hlt, -⟩
    · exact ⟨Char.toNat_inj.mp hcode, hleft⟩
    · exact absurd ⟨hge, hlt.trans (by decide)⟩ (not_isSurrogate c)
  | pair first second high_ge high_lt low_ge low_lt code =>
    rw [List.append_assoc] at heq
    rcases h'.of_unit first heq with ⟨hcode, -⟩ | ⟨-, -, us, low, hlow, -, -, hrest, hcode⟩
    · exact absurd (hcode ▸ ⟨high_ge, high_lt.trans (by decide)⟩) (not_isSurrogate d)
    · obtain ⟨rfl, hleft⟩ := second.eq_of_append_eq hlow hrest
      exact ⟨Char.toNat_inj.mp (hcode.trans code.symm), hleft⟩

/-- No character of a string is written with a quote in front. -/
theorem head_ne_quote (h : WritesChar cs c) (left left' : List Char) :
    cs ++ left ≠ '\x22' :: left' := by
  cases h with
  | unescaped _ not_quote => simp [not_quote]
  | escape => simp
  | unit unit =>
    obtain ⟨_, rfl⟩ := unit.eq_cons
    simp
  | pair first =>
    obtain ⟨_, rfl⟩ := first.eq_cons
    simp

end WritesChar

theorem WritesChars.eq_of_append_eq {cs cs' text text' left left' : List Char}
    (h : WritesChars cs text) (h' : WritesChars cs' text') (heq : cs' ++ '\x22' :: left' = cs ++ '\x22' :: left) :
    text' = text ∧ left' = left := by
  induction h generalizing cs' text' with
  | nil =>
    cases h' with
    | nil => exact ⟨rfl, (List.cons.inj heq).2⟩
    | cons first' =>
      rw [List.append_assoc] at heq
      exact absurd heq (first'.head_ne_quote _ _)
  | cons first rest ih =>
    rw [List.append_assoc] at heq
    cases h' with
    | nil => exact absurd heq.symm (first.head_ne_quote _ _)
    | cons first' rest' =>
      rw [List.append_assoc] at heq
      obtain ⟨rfl, hmore⟩ := first.eq_of_append_eq first' heq
      obtain ⟨rfl, hleft⟩ := ih rest' hmore
      exact ⟨rfl, hleft⟩

theorem readsOnce_string (ends : List Char → Prop) (text : List Char) :
    ReadsOnce WritesString ends text := by
  rintro _ a left _ a' left' ⟨inner⟩ ⟨inner'⟩ - heq - -
  simp only [List.cons_append, List.append_assoc, List.nil_append, List.cons.injEq,
    true_and] at heq
  obtain ⟨htext, hleft⟩ := inner.eq_of_append_eq inner' heq
  exact ⟨String.toList_inj.mp htext, hleft⟩

/-! ## Numbers -/

theorem isNumberChar_of_isDigit {c : Char} (h : c.isDigit) : isNumberChar c := by
  simp [isNumberChar, h]

theorem WritesNumber.forall_isNumberChar {cs : List Char} (h : WritesNumber cs) :
    ∀ c ∈ cs, isNumberChar c := by
  obtain ⟨signed, ⟨⟨-, hwhole⟩, -⟩, point, power⟩ := h
  have hdigits {ds : List Char} (h : Digits ds) : ∀ c ∈ ds, isNumberChar c :=
    fun c hc => isNumberChar_of_isDigit (h.2 c hc)
  simp only [List.forall_mem_append]
  refine ⟨?_, fun c hc => isNumberChar_of_isDigit (hwhole c hc), ?_, ?_⟩
  · rcases signed with rfl | rfl <;> simp [isNumberChar]
  · cases point with
    | absent => simp
    | present digits => exact List.forall_mem_cons.mpr ⟨rfl, hdigits digits⟩
  · cases power with
    | absent => simp
    | present letter signed digits =>
      refine List.forall_mem_cons.mpr ⟨?_, List.forall_mem_append.mpr ⟨?_, hdigits digits⟩⟩
      · rcases letter with rfl | rfl <;> rfl
      · simp only [List.mem_cons, List.not_mem_nil, or_false] at signed
        rcases signed with rfl | rfl | rfl <;> simp [isNumberChar]

/-- A literal goes as far as there are characters of numbers. -/
theorem WritesNumber.takeWhile_isNumberChar {cs left : List Char} (h : WritesNumber cs)
    (hleft : Before (fun c => !isNumberChar c) left) :
    (cs ++ left).takeWhile isNumberChar = cs := by
  rw [List.takeWhile_append_of_pos h.forall_isNumberChar]
  cases left with
  | nil => simp
  | cons c rest =>
    have hc : isNumberChar c = false := by simpa using hleft c rfl
    simp [hc]

/-! ## Values -/

theorem suffix_of_cons_suffix_cons {c d : Char} {left text : List Char}
    (h : d :: left <:+ c :: text) : left <:+ text := by
  rcases List.suffix_cons_iff.mp h with heq | hlater
  · exact (List.cons.inj heq).2 ▸ List.suffix_rfl
  · exact (List.suffix_cons _ _).trans hlater

theorem WritesValue.kind_eq {cs cs' left left' : List Char} {v v' : Tree} (h : WritesValue cs v)
    (h' : WritesValue cs' v') (heq : cs' ++ left' = cs ++ left) : v.kind = v'.kind := by
  obtain ⟨c, rest, rfl, hc⟩ := h.exists_kind?
  obtain ⟨c', rest', rfl, hc'⟩ := h'.exists_kind?
  cases (List.cons.inj heq).1
  exact Option.some.inj (hc.symm.trans hc')

namespace ReadsOnce

variable {text : List Char}

theorem element (h : ReadsOnce WritesValue (Before fun c => !isNumberChar c) text) :
    ReadsOnce (Spaced WritesValue) (Before delimits) text := by
  refine h.spaced WritesValue.beginsAtOnce (fun after left hafter hleft => ?_) fun left hleft => ?_
  · cases after with
    | nil => exact hleft.imp fun c hc => by rw [isNumberChar_of_delimits hc]; rfl
    | cons c rest =>
      have hc : isBlank c := hafter c List.mem_cons_self
      exact .cons (by rw [isNumberChar_of_isBlank hc]; rfl) _
  · exact hleft.imp fun c hc => by rw [isBlank_of_delimits hc]; rfl

theorem member (h : ReadsOnce WritesValue (Before fun c => !isNumberChar c) text) :
    ReadsOnce (WritesMember WritesValue) (Before delimits) text := by
  have hname : ReadsOnce (Spaced WritesString) (Before (· = ':')) text := by
    refine spaced (readsOnce_string (fun _ => True) text) WritesString.beginsAtOnce
      (fun _ _ _ _ => trivial) fun left hleft => hleft.imp fun c hc => ?_
    rw [decide_eq_true_eq] at hc
    subst hc
    rfl
  rintro _ _ left _ _ left' ⟨named, element⟩ ⟨named', element'⟩ hsuffix heq hleft hleft'
  simp only [List.append_assoc, List.cons_append] at hsuffix heq
  obtain ⟨rfl, hrest⟩ :=
    hname _ _ _ _ _ _ named named' hsuffix heq (.cons (by simp) _) (.cons (by simp) _)
  have hlater := (List.suffix_cons _ _).trans ((List.suffix_append _ _).trans hsuffix)
  obtain ⟨rfl, hsame⟩ := h.element _ _ _ _ _ _ element element' hlater (List.cons.inj hrest).2
    hleft hleft'
  exact ⟨rfl, hsame⟩

end ReadsOnce

theorem readsOnce_value (text : List Char) :
    ReadsOnce WritesValue (Before fun c => !isNumberChar c) text := by
  induction text with
  | nil =>
    intro cs v left _ _ _ h _ hsuffix
    obtain ⟨c, rest, rfl, -⟩ := h.exists_kind?
    cases List.suffix_nil.mp hsuffix
  | cons c text ih =>
    intro cs v left cs' v' left' h h' hsuffix heq hleft hleft'
    have hkind := h.kind_eq h' heq
    -- A value of another kind has another first character; seven pairs of kinds are left.
    cases h with
    | null =>
      cases h' <;> cases hkind
      exact ⟨rfl, List.append_cancel_left heq⟩
    | true =>
      cases h' <;> cases hkind
      exact ⟨rfl, List.append_cancel_left heq⟩
    | false =>
      cases h' <;> cases hkind
      exact ⟨rfl, List.append_cancel_left heq⟩
    | number digits =>
      cases h' <;> cases hkind
      next digits' =>
      have hcs : cs' = cs := by
        rw [← digits.takeWhile_isNumberChar hleft, ← digits'.takeWhile_isNumberChar hleft', heq]
      subst hcs
      exact ⟨rfl, List.append_cancel_left heq⟩
    | string quoted =>
      cases h' <;> cases hkind
      next quoted' =>
      obtain ⟨rfl, hsame⟩ :=
        readsOnce_string (fun _ => True) _ _ _ _ _ _ _ quoted quoted' hsuffix heq trivial trivial
      exact ⟨rfl, hsame⟩
    | array inner =>
      cases h' <;> cases hkind
      next inner' =>
      simp only [List.cons_append, List.append_assoc, List.nil_append, List.cons.injEq,
        true_and] at heq hsuffix
      obtain ⟨rfl, hsame⟩ :=
        ih.element.listed (Spaced.begins WritesValue.beginsAtOnce) _ _ _ _ _ _ inner inner'
          (suffix_of_cons_suffix_cons hsuffix) heq (.cons rfl _) (.cons rfl _)
      exact ⟨rfl, (List.cons.inj hsame).2⟩
    | object inner =>
      cases h' <;> cases hkind
      next inner' =>
      simp only [List.cons_append, List.append_assoc, List.nil_append, List.cons.injEq,
        true_and] at heq hsuffix
      obtain ⟨rfl, hsame⟩ :=
        ih.member.listed WritesMember.begins _ _ _ _ _ _ inner inner'
          (suffix_of_cons_suffix_cons hsuffix) heq (.cons rfl _) (.cons rfl _)
      exact ⟨rfl, (List.cons.inj hsame).2⟩

/-! ## Main result -/

/-- A text is a document in one way only. -/
theorem WritesDocument.unique {text : List Char} {v v' : Tree} (h : WritesDocument text v)
    (h' : WritesDocument text v') : v' = v := by
  have hend : Before delimits [] := fun c hc => (nomatch hc)
  exact ((readsOnce_value text).element _ _ [] _ _ [] h h' (by simp) rfl hend hend).1

end ContainerFlow.Json
