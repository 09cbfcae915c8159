/-
ContainerFlow.Proofs.Text.Utf8 — which bytes are a text, and where bytes
that are none stop being one.

`Spells bytes i cs j` is that the bytes from `i` up to `j` are the
characters `cs`.  It goes by the character that starts at `i`
(`spells_cons`), as the search for the end does, so the search ends
behind characters (`exists_spells_validUntil`) and as far on as any
characters reach (`Spells.le_validUntil`).

Bytes that are no text are refused with the length of the longest of
their beginnings that is one (`decodeUtf8_eq_error`).
-/
import Mathlib
import ContainerFlow.Text.Utf8

namespace ContainerFlow.Text

/-- The bytes encode a text. -/
def IsText (bytes : ByteArray) : Prop := ∃ text : String, bytes = text.toUTF8

/-- The first `n` bytes are a text, and no more of the first bytes are one. -/
structure IsLongestText (bytes : ByteArray) (n : Nat) : Prop where
  le_size : n ≤ bytes.size
  isText : IsText (bytes.extract 0 n)
  longest : ∀ m ≤ bytes.size, IsText (bytes.extract 0 m) → m ≤ n

/-- The bytes from `i` up to `j` are these characters. -/
structure Spells (bytes : ByteArray) (i : Nat) (cs : List Char) (j : Nat) : Prop where
  le : i ≤ j
  le_size : j ≤ bytes.size
  encoded : bytes.extract i j = cs.utf8Encode

variable {bytes : ByteArray} {i j n : Nat}

theorem isText_iff_utf8Encode : IsText bytes ↔ ∃ cs : List Char, bytes = cs.utf8Encode := by
  constructor
  · rintro ⟨text, rfl⟩
    exact ⟨text.toList, String.utf8Encode_toList.symm⟩
  · rintro ⟨cs, rfl⟩
    exact ⟨String.ofList cs, String.toByteArray_ofList.symm⟩

theorem isText_iff_isValidUTF8 : IsText bytes ↔ bytes.IsValidUTF8 := by
  rw [isText_iff_utf8Encode]
  constructor
  · rintro ⟨cs, h⟩
    exact .intro cs h
  · rintro ⟨cs, h⟩
    exact ⟨cs, h⟩

/-! ## Characters one by one -/

theorem Spells.nil (h : i ≤ bytes.size) : Spells bytes i [] i :=
  ⟨Nat.le_refl i, h, by rw [ByteArray.extract_same, List.utf8Encode_nil]⟩

theorem Spells.eq_of_nil (h : Spells bytes i [] j) : j = i := by
  have hempty : bytes.extract i j = ByteArray.empty := h.encoded
  have hle := h.le
  have hsize := h.le_size
  rw [ByteArray.extract_eq_empty_iff] at hempty
  omega

/-- The character that starts at a byte is the bytes up to where it ends. -/
theorem extract_of_utf8DecodeChar? {c : Char} (h : bytes.utf8DecodeChar? i = some c) :
    bytes.extract i (i + c.utf8Size) = [c].utf8Encode := by
  have hsize := ByteArray.le_size_of_utf8DecodeChar?_eq_some h
  rw [ByteArray.utf8DecodeChar?_eq_utf8DecodeChar?_extract] at h
  rw [List.utf8Encode_singleton, String.toByteArray_utf8EncodeChar_of_utf8DecodeChar?_eq_some h,
    ByteArray.extract_extract, Nat.add_zero, Nat.min_eq_left hsize]

/-- Characters start with the one at `i`, and the others come behind it. -/
theorem spells_cons {c : Char} {cs : List Char} :
    Spells bytes i (c :: cs) j ↔
      bytes.utf8DecodeChar? i = some c ∧ Spells bytes (i + c.utf8Size) cs j := by
  constructor
  · intro h
    have hchars : bytes.extract i j = [c].utf8Encode ++ cs.utf8Encode := by
      rw [h.encoded, List.utf8Encode_cons]
    have hdecode : bytes.utf8DecodeChar? i = some c := by
      rw [ByteArray.utf8DecodeChar?_eq_utf8DecodeChar?_extract,
        ByteArray.extract_eq_extract_append_extract j h.le h.le_size, hchars,
        ByteArray.append_assoc, List.utf8DecodeChar?_utf8Encode_singleton_append]
    -- The bytes up to `j` are enough for the first character, so what it leaves is the others.
    have hend : i + c.utf8Size ≤ j := by
      have hsize := congrArg ByteArray.size hchars
      have hle := h.le_size
      simp [List.utf8Encode_singleton] at hsize
      have hpos := c.utf8Size_pos
      omega
    rw [ByteArray.extract_eq_extract_append_extract (i + c.utf8Size) (by omega) hend,
      extract_of_utf8DecodeChar? hdecode, ByteArray.append_right_inj] at hchars
    exact ⟨hdecode, hend, h.le_size, hchars⟩
  · rintro ⟨hdecode, hrest⟩
    refine ⟨by have := hrest.le; omega, hrest.le_size, ?_⟩
    rw [ByteArray.extract_eq_extract_append_extract (i + c.utf8Size) (by omega) hrest.le,
      extract_of_utf8DecodeChar? hdecode, hrest.encoded, ← List.utf8Encode_cons]

/-! ## The search for the end -/

theorem exists_spells_validUntil (h : i ≤ bytes.size) :
    ∃ cs, Spells bytes i cs (validUntil bytes i) := by
  fun_induction validUntil bytes i with
  | case1 i hlt c hchar ih =>
    obtain ⟨cs, hcs⟩ := ih (ByteArray.le_size_of_utf8DecodeChar?_eq_some hchar)
    exact ⟨c :: cs, spells_cons.mpr ⟨hchar, hcs⟩⟩
  | case2 i hlt hnone => exact ⟨[], .nil h⟩
  | case3 i hge => exact ⟨[], .nil h⟩

/-- No characters reach farther than the search. -/
theorem Spells.le_validUntil {cs : List Char} (h : Spells bytes i cs j) :
    j ≤ validUntil bytes i := by
  fun_induction validUntil bytes i generalizing cs with
  | case1 i hlt c hchar ih =>
    cases cs with
    | nil =>
      -- The search has not gone back behind where it started.
      obtain ⟨_, hrest⟩ :=
        exists_spells_validUntil (ByteArray.le_size_of_utf8DecodeChar?_eq_some hchar)
      rw [h.eq_of_nil]
      exact Nat.le_trans (Nat.le_add_right i c.utf8Size) hrest.le
    | cons d cs =>
      obtain ⟨hd, hrest⟩ := spells_cons.mp h
      obtain rfl : d = c := Option.some.inj (hd.symm.trans hchar)
      exact ih hrest
  | case2 i hlt hnone =>
    cases cs with
    | nil => exact h.eq_of_nil.le
    | cons c cs =>
      rw [(spells_cons.mp h).1] at hnone
      cases hnone
  | case3 i hge =>
    have hsize := h.le_size
    omega

/-- The search from the first byte finds the longest text. -/
theorem isLongestText_validUntil (bytes : ByteArray) :
    IsLongestText bytes (validUntil bytes 0) := by
  obtain ⟨cs, hcs⟩ := exists_spells_validUntil (Nat.zero_le bytes.size)
  refine ⟨hcs.le_size, isText_iff_utf8Encode.mpr ⟨cs, hcs.encoded⟩, fun m hm htext => ?_⟩
  obtain ⟨ds, hds⟩ := isText_iff_utf8Encode.mp htext
  exact Spells.le_validUntil ⟨Nat.zero_le m, hm, hds⟩

theorem IsLongestText.unique {m n : Nat} (hm : IsLongestText bytes m) (hn : IsLongestText bytes n) :
    m = n :=
  Nat.le_antisymm (hn.longest m hm.le_size hm.isText) (hm.longest n hn.le_size hn.isText)

/-! ## Decoding -/

/-- What the bytes of a text encode is the text. -/
theorem decodeUtf8_toUTF8 (text : String) : decodeUtf8 text.toUTF8 = .ok text := by
  have hvalid : text.toUTF8.IsValidUTF8 := text.isValidUTF8
  rw [decodeUtf8, String.fromUTF8?, dif_pos hvalid]
  rfl

/-- Bytes that are no text are refused where the longest text that they start with ends. -/
theorem exists_decodeUtf8_error (h : ¬ IsText bytes) :
    ∃ n, IsLongestText bytes n ∧ decodeUtf8 bytes = .error n := by
  have hinvalid : ¬ bytes.IsValidUTF8 := mt isText_iff_isValidUTF8.mpr h
  refine ⟨validUntil bytes 0, isLongestText_validUntil bytes, ?_⟩
  rw [decodeUtf8, String.fromUTF8?, dif_neg hinvalid]

end ContainerFlow.Text
