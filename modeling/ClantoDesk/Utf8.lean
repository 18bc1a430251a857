import Mathlib.Tactic.Common

/-!
Texts in UTF-8 as lists of bytes: which lists are texts, what the bytes of one character look like,
and what the beginning of a text looks like wherever it is cut. Nothing in this module refers to a
particular program.
-/
namespace ClantoDesk.Utf8

def encode (chars : List Char) : List UInt8 := chars.flatMap String.utf8EncodeChar

def Valid (bytes : List UInt8) : Prop := ∃ chars, bytes = encode chars

theorem valid_iff_isValidUTF8 (bytes : List UInt8) :
    Valid bytes ↔ bytes.toByteArray.IsValidUTF8 := by
  constructor
  · rintro ⟨chars, rfl⟩
    exact ⟨chars, rfl⟩
  · rintro ⟨chars, hchars⟩
    refine ⟨chars, ?_⟩
    have hdata := congrArg (fun b => b.data.toList) hchars
    simpa [List.utf8Encode, encode] using hdata

theorem encode_append (first rest : List Char) :
    encode (first ++ rest) = encode first ++ encode rest := by
  exact List.flatMap_append

theorem encode_cons (c : Char) (rest : List Char) :
    encode (c :: rest) = String.utf8EncodeChar c ++ encode rest := by
  rfl

/-- What follows the text of some characters in a text is a text. -/
theorem valid_of_encode_append (chars : List Char) (rest : List UInt8)
    (h : Valid (encode chars ++ rest)) : Valid rest := by
  induction chars with
  | nil => exact h
  | cons c chars ih =>
    apply ih
    rw [encode_cons, List.append_assoc] at h
    rw [valid_iff_isValidUTF8] at h ⊢
    rw [List.toByteArray_append', ← List.utf8Encode_singleton] at h
    exact ByteArray.isValidUTF8_utf8Encode_singleton_append_iff.mp h

def Continues (b : UInt8) : Prop := 128 ≤ b.toNat ∧ b.toNat < 192

def Leads (b : UInt8) (n : ℕ) : Prop :=
  (n = 0 ∧ b.toNat < 128) ∨ (n = 1 ∧ 192 ≤ b.toNat ∧ b.toNat < 224) ∨
    (n = 2 ∧ 224 ≤ b.toNat ∧ b.toNat < 240) ∨ (n = 3 ∧ 240 ≤ b.toNat ∧ b.toNat < 248)

theorem utf8EncodeChar_shape (c : Char) :
    ∃ lead conts, String.utf8EncodeChar c = lead :: conts ∧ Leads lead conts.length ∧
      ∀ b ∈ conts, Continues b := by
  have hcont (v : ℕ) : Continues (UInt8.ofNat (v % 64 + 128)) := by
    rw [Continues, UInt8.toNat_ofNat']
    omega
  have hcons (v : ℕ) (conts : List UInt8) (h : ∀ b ∈ conts, Continues b) :
      ∀ b ∈ UInt8.ofNat (v % 64 + 128) :: conts, Continues b :=
    List.forall_mem_cons.mpr ⟨hcont v, h⟩
  have hnil : ∀ b ∈ ([] : List UInt8), Continues b := List.forall_mem_nil _
  fun_cases String.utf8EncodeChar c with
  | case1 v hv =>
    refine ⟨_, _, rfl, Or.inl ⟨rfl, ?_⟩, hnil⟩
    rw [UInt8.toNat_ofNat']
    omega
  | case2 v hv hv' =>
    refine ⟨_, _, rfl, Or.inr (Or.inl ⟨rfl, ?_⟩), ?_⟩
    · rw [UInt8.toNat_ofNat']
      omega
    · exact hcons _ _ hnil
  | case3 v hv hv' hv'' =>
    refine ⟨_, _, rfl, Or.inr (Or.inr (Or.inl ⟨rfl, ?_⟩)), ?_⟩
    · rw [UInt8.toNat_ofNat']
      omega
    · exact hcons _ _ (hcons _ _ hnil)
  | case4 v hv hv' hv'' =>
    refine ⟨_, _, rfl, Or.inr (Or.inr (Or.inr ⟨rfl, ?_⟩)), ?_⟩
    · rw [UInt8.toNat_ofNat']
      omega
    · exact hcons _ _ (hcons _ _ (hcons _ _ hnil))

/-- Wherever a text is cut, its beginning is a text and the beginning of one more character. -/
theorem prefix_of_encode (chars : List Char) (bytes : List UInt8) (h : bytes <+: encode chars) :
    ∃ whole part, bytes = encode whole ++ part ∧
      (part = [] ∨ ∃ c missing, missing ≠ [] ∧ String.utf8EncodeChar c = part ++ missing) := by
  induction chars generalizing bytes with
  | nil => exact ⟨[], [], List.prefix_nil.mp h, Or.inl rfl⟩
  | cons c chars ih =>
    rw [encode_cons] at h
    by_cases hshort : bytes.length < (String.utf8EncodeChar c).length
    · obtain ⟨missing, hmissing⟩ := List.prefix_of_prefix_length_le h
        (List.prefix_append _ _) (Nat.le_of_lt hshort)
      refine ⟨[], bytes, rfl, Or.inr ⟨c, missing, ?_, hmissing.symm⟩⟩
      rintro rfl
      rw [List.append_nil] at hmissing
      exact absurd hshort (hmissing ▸ Nat.lt_irrefl _)
    · obtain ⟨later, rfl⟩ := List.prefix_of_prefix_length_le (List.prefix_append _ _) h
        (Nat.le_of_not_lt hshort)
      obtain ⟨whole, part, rfl, hpart⟩ := ih later ((List.prefix_append_right_inj _).mp h)
      exact ⟨c :: whole, part, by rw [encode_cons, List.append_assoc], hpart⟩

end ClantoDesk.Utf8
