import ClantoDesk.LittleEndian

/-!
Texts as UTF-16 code units, and the units as pairs of little-endian bytes. Decoding what was
encoded gives the text back, and a text without the null character has no unit zero, so that a
zero unit can end it. Nothing in this module refers to a particular program.
-/
namespace ClantoDesk.Utf16

open LittleEndian

def encodeChar (c : Char) : List ℕ :=
  if c.toNat < 0x10000 then [c.toNat]
  else [0xD800 + (c.toNat - 0x10000) / 0x400, 0xDC00 + (c.toNat - 0x10000) % 0x400]

def encode (text : List Char) : List ℕ := text.flatMap encodeChar

/-- A unit outside the surrogates is a character; a high surrogate needs a low one after it. -/
def decode : List ℕ → Option (List Char)
  | [] => some []
  | [u] => if u < 0xD800 ∨ (0xE000 ≤ u ∧ u < 0x10000) then some [Char.ofNat u] else none
  | u :: v :: rest =>
    if u < 0xD800 ∨ (0xE000 ≤ u ∧ u < 0x10000) then
      (decode (v :: rest)).map fun text => Char.ofNat u :: text
    else if 0xD800 ≤ u ∧ u < 0xDC00 ∧ 0xDC00 ≤ v ∧ v < 0xE000 then
      (decode rest).map fun text =>
        Char.ofNat (0x10000 + (u - 0xD800) * 0x400 + (v - 0xDC00)) :: text
    else none

def decodeLossy : List ℕ → List Char
  | [] => []
  | [u] => if u < 0xD800 ∨ (0xE000 ≤ u ∧ u < 0x10000) then [Char.ofNat u] else [Char.ofNat 0xFFFD]
  | u :: v :: rest =>
    if u < 0xD800 ∨ (0xE000 ≤ u ∧ u < 0x10000) then Char.ofNat u :: decodeLossy (v :: rest)
    else if 0xD800 ≤ u ∧ u < 0xDC00 ∧ 0xDC00 ≤ v ∧ v < 0xE000 then
      Char.ofNat (0x10000 + (u - 0xD800) * 0x400 + (v - 0xDC00)) :: decodeLossy rest
    else Char.ofNat 0xFFFD :: decodeLossy (v :: rest)

variable (text : List Char)

theorem decodeLossy_of_decode (units : List ℕ) (text : List Char) (h : decode units = some text) :
    decodeLossy units = text := by
  fun_induction decode units generalizing text with
  | case1 => exact Option.some.inj h
  | case2 u hu =>
    rw [decodeLossy, if_pos hu]
    exact Option.some.inj h
  | case3 u hu => cases h
  | case4 u v rest hu ih =>
    obtain ⟨tail, htail, rfl⟩ := Option.map_eq_some_iff.mp h
    rw [decodeLossy, if_pos hu, ih tail htail]
  | case5 u v rest hu hpair ih =>
    obtain ⟨tail, htail, rfl⟩ := Option.map_eq_some_iff.mp h
    rw [decodeLossy, if_neg hu, if_pos hpair, ih tail htail]
  | case6 u v rest hu hpair => cases h

theorem char_range (c : Char) : c.toNat < 0xD800 ∨ (0xE000 ≤ c.toNat ∧ c.toNat < 0x110000) := by
  rcases c.valid with hlow | ⟨hhigh, htop⟩
  · exact Or.inl hlow
  · exact Or.inr ⟨by unfold Char.toNat; omega, htop⟩

theorem decode_cons_of_plain (u : ℕ) (rest : List ℕ)
    (hu : u < 0xD800 ∨ (0xE000 ≤ u ∧ u < 0x10000)) :
    decode (u :: rest) = (decode rest).map fun text => Char.ofNat u :: text := by
  cases rest with
  | nil =>
    simp only [decode, if_pos hu, Option.map_some]
  | cons v rest => rw [decode, if_pos hu]

theorem decode_encodeChar_append (c : Char) (rest : List ℕ) :
    decode (encodeChar c ++ rest) = (decode rest).map fun text => c :: text := by
  have hrange := char_range c
  unfold encodeChar
  by_cases hplain : c.toNat < 0x10000
  · rw [if_pos hplain, List.singleton_append, decode_cons_of_plain _ _ (by omega),
      Char.ofNat_toNat]
  · have hjoined : 0x10000 + (0xD800 + (c.toNat - 0x10000) / 0x400 - 0xD800) * 0x400 +
        (0xDC00 + (c.toNat - 0x10000) % 0x400 - 0xDC00) = c.toNat := by omega
    rw [if_neg hplain]
    simp only [List.cons_append, List.nil_append]
    rw [decode, if_neg (by omega), if_pos (by omega), hjoined, Char.ofNat_toNat]

theorem decode_encode : decode (encode text) = some text := by
  induction text with
  | nil => rfl
  | cons c text ih =>
    have hcons : encode (c :: text) = encodeChar c ++ encode text := rfl
    rw [hcons, decode_encodeChar_append, ih]
    rfl

theorem unit_lt (u : ℕ) (hu : u ∈ encode text) : u < 256 ^ 2 := by
  obtain ⟨c, -, hc⟩ := List.mem_flatMap.mp hu
  have hrange := char_range c
  unfold encodeChar at hc
  split at hc
  · rw [List.mem_singleton.mp hc]
    omega
  · rcases List.mem_cons.mp hc with rfl | hlow
    · omega
    · rw [List.mem_singleton.mp hlow]
      omega

theorem unit_ne_zero (hnull : Char.ofNat 0 ∉ text) (u : ℕ) (hu : u ∈ encode text) : u ≠ 0 := by
  obtain ⟨c, hmem, hc⟩ := List.mem_flatMap.mp hu
  unfold encodeChar at hc
  rintro rfl
  split at hc
  · have hzero : c.toNat = 0 := (List.mem_singleton.mp hc).symm
    have hchar : c = Char.ofNat 0 := by rw [← Char.ofNat_toNat c, hzero]
    exact hnull (hchar ▸ hmem)
  · rcases List.mem_cons.mp hc with hhigh | hlow
    · omega
    · have hzero := List.mem_singleton.mp hlow
      omega

def unitBytes (units : List ℕ) : Bytes := units.flatMap (leBytes 2)

def pairs : Bytes → List ℕ
  | a :: b :: rest => (a.toNat + 256 * b.toNat) :: pairs rest
  | _ => []

theorem pairs_unitBytes_append (units : List ℕ) (rest : Bytes) (hunits : ∀ u ∈ units, u < 256 ^ 2) :
    pairs (unitBytes units ++ rest) = units ++ pairs rest := by
  induction units with
  | nil => rfl
  | cons u units ih =>
    have hcons : unitBytes (u :: units) ++ rest = leBytes 2 u ++ (unitBytes units ++ rest) :=
      List.append_assoc ..
    have hread : readLE (leBytes 2 u) = u :=
      readLE_leBytes_of_lt 2 u (hunits u (List.mem_cons_self ..))
    have htwo : pairs (leBytes 2 u ++ (unitBytes units ++ rest)) =
        readLE (leBytes 2 u) :: pairs (unitBytes units ++ rest) := by
      simp [leBytes, pairs, readLE]
    rw [hcons, htwo, hread, ih fun v hv => hunits v (List.mem_cons_of_mem _ hv)]
    rfl

end ClantoDesk.Utf16
