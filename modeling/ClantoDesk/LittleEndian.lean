import Mathlib.Data.List.Basic
import Mathlib.Data.Nat.Notation
import Mathlib.Tactic.Common
import Mathlib.Tactic.Ring

/-!
Numbers as fixed numbers of little-endian bytes, and byte strings with their length in front.
A number that fits is read back, and a byte string with its length in front ends where it should, so
that what follows it cannot be taken for a part of it. Nothing in this module refers to a
particular program.
-/
namespace ClantoDesk.LittleEndian

abbrev Bytes := List UInt8

/-- The lowest `width` bytes of a number, the lowest first. -/
def leBytes : ℕ → ℕ → Bytes
  | 0, _ => []
  | width + 1, n => UInt8.ofNat n :: leBytes width (n / 256)

def readLE : Bytes → ℕ
  | [] => 0
  | b :: bs => b.toNat + 256 * readLE bs

@[simp] theorem leBytes_length (width n : ℕ) : (leBytes width n).length = width := by
  induction width generalizing n with
  | zero => rfl
  | succ width ih => rw [leBytes, List.length_cons, ih]

/-- Writing a number and reading it back leaves what fits into the bytes. -/
theorem readLE_leBytes (width n : ℕ) : readLE (leBytes width n) = n % 256 ^ width := by
  induction width generalizing n with
  | zero => simp [leBytes, readLE, Nat.mod_one]
  | succ width ih =>
    have hbyte : (UInt8.ofNat n).toNat = n % 256 := UInt8.toNat_ofNat
    rw [leBytes, readLE, ih, hbyte, pow_succ, mul_comm (256 ^ width) 256, Nat.mod_mul]

theorem readLE_leBytes_of_lt (width n : ℕ) (hn : n < 256 ^ width) :
    readLE (leBytes width n) = n := by
  rw [readLE_leBytes, Nat.mod_eq_of_lt hn]

theorem leBytes_inj (width n m : ℕ) (hn : n < 256 ^ width) (hm : m < 256 ^ width)
    (heq : leBytes width n = leBytes width m) : n = m := by
  have hread := congrArg readLE heq
  rwa [readLE_leBytes_of_lt width n hn, readLE_leBytes_of_lt width m hm] at hread

@[simp] theorem take_leBytes (width n : ℕ) (rest : Bytes) :
    (leBytes width n ++ rest).take width = leBytes width n :=
  List.take_left' (leBytes_length width n)

@[simp] theorem drop_leBytes (width n : ℕ) (rest : Bytes) :
    (leBytes width n ++ rest).drop width = rest :=
  List.drop_left' (leBytes_length width n)

def framed (bytes : Bytes) : Bytes := leBytes 8 bytes.length ++ bytes

/-- The length in front tells where the byte string ends. -/
theorem framed_append_inj (a b x y : Bytes) (ha : a.length < 2 ^ 64) (hb : b.length < 2 ^ 64)
    (heq : framed a ++ x = framed b ++ y) : a = b ∧ x = y := by
  have hwidth : (2 : ℕ) ^ 64 = 256 ^ 8 := by norm_num
  rw [hwidth] at ha hb
  simp only [framed, List.append_assoc] at heq
  obtain ⟨hfront, hrest⟩ := List.append_inj heq (by simp)
  exact List.append_inj hrest (leBytes_inj 8 _ _ ha hb hfront)

end ClantoDesk.LittleEndian
