import Mathlib.Data.List.Basic
import Mathlib.Data.Nat.Notation
import Mathlib.Tactic.Common

/-!
Base 64 with the URL safe alphabet and without padding. Three bytes become four letters; one or
two bytes at the end become two or three letters, whose unused low bits are zero. A decoder that
refuses other letters, a single letter left over and unused bits that are set reads
every encoding back, so the encoding determines the bytes. Nothing in this module refers to a
particular program.
-/
namespace ClantoDesk.Base64

def alphabet : List Char :=
  "ABCDEFGHIJKLMNOPQRSTUVWXYZabcdefghijklmnopqrstuvwxyz0123456789-_".toList

def letter (n : ℕ) : Char := alphabet[n]?.getD 'A'

def value (c : Char) : Option ℕ := alphabet.findIdx? fun d => d == c

def encode : List UInt8 → List Char
  | a :: b :: c :: rest =>
      letter (a.toNat / 4) :: letter (a.toNat % 4 * 16 + b.toNat / 16) ::
        letter (b.toNat % 16 * 4 + c.toNat / 64) :: letter (c.toNat % 64) :: encode rest
  | [a, b] =>
      [letter (a.toNat / 4), letter (a.toNat % 4 * 16 + b.toNat / 16),
        letter (b.toNat % 16 * 4)]
  | [a] => [letter (a.toNat / 4), letter (a.toNat % 4 * 16)]
  | [] => []

/-- The byte made of `high` and the upper bits of `low`, each given by its weight. -/
def joined (high highWeight low lowWeight : ℕ) : UInt8 :=
  UInt8.ofNat (high * highWeight + low / lowWeight)

def decode : List Char → Option (List UInt8)
  | c₀ :: c₁ :: c₂ :: c₃ :: rest => do
      let v₀ ← value c₀
      let v₁ ← value c₁
      let v₂ ← value c₂
      let v₃ ← value c₃
      let bytes ← decode rest
      some (joined v₀ 4 v₁ 16 :: joined (v₁ % 16) 16 v₂ 4 :: joined (v₂ % 4) 64 v₃ 1 :: bytes)
  | [c₀, c₁, c₂] => do
      let v₀ ← value c₀
      let v₁ ← value c₁
      let v₂ ← value c₂
      if v₂ % 4 = 0 then some [joined v₀ 4 v₁ 16, joined (v₁ % 16) 16 v₂ 4] else none
  | [c₀, c₁] => do
      let v₀ ← value c₀
      let v₁ ← value c₁
      if v₁ % 16 = 0 then some [joined v₀ 4 v₁ 16] else none
  | [_] => none
  | [] => some []

theorem value_letter (n : ℕ) (hn : n < 64) : value (letter n) = some n := by
  have hall : ∀ k : Fin 64, value (letter k) = some k.val := by decide +kernel
  exact hall ⟨n, hn⟩

theorem letter_mem (n : ℕ) : letter n ∈ alphabet := by
  rw [letter]
  cases hn : alphabet[n]? with
  | none => decide
  | some c => exact List.mem_of_getElem? hn

theorem joined_eq (high highWeight low lowWeight : ℕ) (b : UInt8)
    (h : high * highWeight + low / lowWeight = b.toNat) :
    joined high highWeight low lowWeight = b := by
  rw [joined, h, UInt8.ofNat_toNat]

theorem decode_encode (bytes : List UInt8) : decode (encode bytes) = some bytes := by
  induction bytes using encode.induct with
  | case1 a b c rest ih =>
    have ha := a.toNat_lt
    have hb := b.toNat_lt
    have hc := c.toNat_lt
    simp only [encode, decode, ih]
    rw [value_letter _ (by omega), value_letter _ (by omega), value_letter _ (by omega),
      value_letter _ (by omega)]
    simp only [Option.bind_eq_bind, Option.bind_some]
    rw [joined_eq _ _ _ _ a (by omega), joined_eq _ _ _ _ b (by omega),
      joined_eq _ _ _ _ c (by omega)]
  | case2 a b =>
    have ha := a.toNat_lt
    have hb := b.toNat_lt
    simp only [encode, decode]
    rw [value_letter _ (by omega), value_letter _ (by omega), value_letter _ (by omega)]
    simp only [Option.bind_eq_bind, Option.bind_some]
    rw [if_pos (by omega), joined_eq _ _ _ _ a (by omega), joined_eq _ _ _ _ b (by omega)]
  | case3 a =>
    have ha := a.toNat_lt
    simp only [encode, decode]
    rw [value_letter _ (by omega), value_letter _ (by omega)]
    simp only [Option.bind_eq_bind, Option.bind_some]
    rw [if_pos (by omega), joined_eq _ _ _ _ a (by omega)]
  | case4 => rfl

theorem encode_injective (a b : List UInt8) (h : encode a = encode b) : a = b := by
  have hdecoded := congrArg decode h
  rw [decode_encode, decode_encode] at hdecoded
  exact Option.some.inj hdecoded

theorem mem_encode (bytes : List UInt8) (c : Char) (hc : c ∈ encode bytes) : c ∈ alphabet := by
  induction bytes using encode.induct with
  | case1 a b d rest ih =>
    simp only [encode, List.mem_cons] at hc
    rcases hc with rfl | rfl | rfl | rfl | hrest
    · exact letter_mem _
    · exact letter_mem _
    · exact letter_mem _
    · exact letter_mem _
    · exact ih hrest
  | case2 a b =>
    simp only [encode, List.mem_cons, List.not_mem_nil, or_false] at hc
    rcases hc with rfl | rfl | rfl
    · exact letter_mem _
    · exact letter_mem _
    · exact letter_mem _
  | case3 a =>
    simp only [encode, List.mem_cons, List.not_mem_nil, or_false] at hc
    rcases hc with rfl | rfl
    · exact letter_mem _
    · exact letter_mem _
  | case4 => cases hc

end ClantoDesk.Base64
