import Mathlib.Data.List.Basic
import Mathlib.Order.Lattice
import Mathlib.Tactic.Common

/-!
Binary search in a list, as the standard library of the modelled program does it: the part of the
list that can hold the element is halved until one place is left. What it finds is the element in
any list; in a list in order it finds every element. Nothing in this module refers to a particular
program.
-/
namespace ClantoDesk.BinarySearch

variable {α : Type} [LinearOrder α]

/-- The place that is left of the `size` places from `base` on. -/
def narrow (xs : List α) (x : α) (base size : ℕ) : ℕ :=
  if 1 < size then
    match xs[base + size / 2]? with
    | some y =>
      if x < y then narrow xs x base (size - size / 2)
      else narrow xs x (base + size / 2) (size - size / 2)
    | none => base
  else base
termination_by size

def binarySearch (xs : List α) (x : α) : Option ℕ :=
  let i := narrow xs x 0 xs.length
  if xs[i]? = some x then some i else none

@[simp] theorem binarySearch_nil (x : α) : binarySearch [] x = none := by
  simp [binarySearch]

variable (xs : List α) (x : α)

theorem get_of_binarySearch (i : ℕ) (h : binarySearch xs x = some i) : xs[i]? = some x := by
  unfold binarySearch at h
  simp only at h
  split at h
  · rename_i heq
    rw [← Option.some.inj h]
    exact heq
  · cases h

theorem le_of_pairwise (hsorted : xs.Pairwise (· ≤ ·)) (i j : ℕ) (x y : α)
    (hi : xs[i]? = some x) (hj : xs[j]? = some y) (hij : i ≤ j) : x ≤ y := by
  obtain ⟨hi', rfl⟩ := List.getElem?_eq_some_iff.mp hi
  obtain ⟨hj', rfl⟩ := List.getElem?_eq_some_iff.mp hj
  by_cases heq : i = j
  · subst heq
    exact le_refl _
  · exact List.pairwise_iff_getElem.mp hsorted i j hi' hj' (by omega)

theorem narrow_spec (hsorted : xs.Pairwise (· ≤ ·)) (base size : ℕ)
    (hsize : base + size ≤ xs.length)
    (hin : ∃ i, base ≤ i ∧ i < base + size ∧ xs[i]? = some x) :
    xs[narrow xs x base size]? = some x := by
  obtain ⟨i, hle, hlt, hx⟩ := hin
  induction base, size using narrow.induct xs x generalizing i with
  | case1 base size h y hmid hxy ih =>
    rw [narrow, if_pos h, hmid]
    simp only [hxy, if_true]
    have hbelow : i < base + size / 2 := by
      by_contra hnot
      have hyx := le_of_pairwise xs hsorted _ i y x hmid hx (by omega)
      exact absurd hxy (not_lt_of_ge hyx)
    exact ih (by omega) i hle (by omega) hx
  | case2 base size h y hmid hxy ih =>
    rw [narrow, if_pos h, hmid]
    simp only [hxy, if_false]
    by_cases hbelow : i < base + size / 2
    · -- an earlier place of the element: the middle has it too
      have hxy' := le_of_pairwise xs hsorted i _ x y hx hmid (by omega)
      have heq : y = x := le_antisymm (not_lt.mp hxy) hxy'
      exact ih (by omega) (base + size / 2) (Nat.le_refl _) (by omega) (heq ▸ hmid)
    · exact ih (by omega) i (by omega) (by omega) hx
  | case3 base size h hmid =>
    rw [List.getElem?_eq_none_iff] at hmid
    omega
  | case4 base size h =>
    rw [narrow, if_neg h]
    obtain rfl : i = base := by omega
    exact hx

/-- In a list in order the search finds exactly the elements. -/
theorem binarySearch_isSome_iff (hsorted : xs.Pairwise (· ≤ ·)) :
    (binarySearch xs x).isSome = true ↔ x ∈ xs := by
  constructor
  · intro h
    obtain ⟨i, hi⟩ := Option.isSome_iff_exists.mp h
    exact List.mem_of_getElem? (get_of_binarySearch xs x i hi)
  · intro h
    obtain ⟨i, hlt, hx⟩ := List.getElem_of_mem h
    have hfound := narrow_spec xs x hsorted 0 xs.length (by omega)
      ⟨i, Nat.zero_le i, by omega, List.getElem?_eq_some_iff.mpr ⟨hlt, hx⟩⟩
    rw [binarySearch, if_pos hfound]
    rfl

end ClantoDesk.BinarySearch
