import Mathlib.Data.Finset.Card
import Mathlib.Data.Nat.ModEq
import Mathlib.Logic.Function.Iterate

/-!
The search for a free place on a cycle: from a starting place the loop moves on while the
place it stands on is taken. It ends as soon as fewer places are taken than the cycle has.
Nothing in this module refers to a particular program.
-/
namespace ClantoDesk.CyclicSearch

variable {α : Type*}

/-- The loop with at most `fuel` tests; `none` when it is still running after them. -/
def search (next : α → α) (taken : α → Bool) : ℕ → α → Option α
  | 0, _ => none
  | fuel + 1, x => if taken x then search next taken fuel (next x) else some x

/-- The places that satisfy `mem` lie on a cycle of this length, and `next` moves one on. -/
structure Cycle (next : α → α) (mem : α → Prop) (length : ℕ) where
  pos : α → ℕ
  pos_next : ∀ x, mem x → pos (next x) = (pos x + 1) % length
  mem_next : ∀ x, mem x → mem (next x)

/-- What the loop returns is free and satisfies whatever `next` keeps. -/
theorem search_spec (next : α → α) (taken : α → Bool) (mem : α → Prop)
    (hmem : ∀ x, mem x → mem (next x)) (fuel : ℕ) (x y : α) (hx : mem x)
    (h : search next taken fuel x = some y) : taken y = false ∧ mem y := by
  induction fuel generalizing x with
  | zero => cases h
  | succ fuel ih =>
    simp only [search] at h
    by_cases htaken : taken x = true
    · rw [if_pos htaken] at h
      exact ih (next x) (hmem x hx) h
    · rw [if_neg htaken] at h
      obtain rfl := Option.some.inj h
      exact ⟨by simpa using htaken, hx⟩

/-- A free place among the next ones makes the loop end, with the same result for
every amount of fuel that reaches it. -/
theorem search_of_free (next : α → α) (taken : α → Bool) (n : ℕ) (x : α)
    (hfree : ∃ i ≤ n, taken (next^[i] x) = false) :
    ∃ y, ∀ fuel, n < fuel → search next taken fuel x = some y := by
  induction n generalizing x with
  | zero =>
    obtain ⟨i, hi, hfree⟩ := hfree
    obtain rfl : i = 0 := by omega
    refine ⟨x, fun fuel hfuel => ?_⟩
    obtain ⟨fuel, rfl⟩ := Nat.exists_eq_add_one.mpr hfuel
    have hx : taken x = false := hfree
    simp [search, hx]
  | succ n ih =>
    by_cases htaken : taken x = true
    · have hrest : ∃ i ≤ n, taken (next^[i] (next x)) = false := by
        obtain ⟨i, hi, hfree⟩ := hfree
        cases i with
        | zero =>
          have hx : taken x = false := hfree
          rw [htaken] at hx
          cases hx
        | succ i => exact ⟨i, by omega, hfree⟩
      obtain ⟨y, hy⟩ := ih (next x) hrest
      refine ⟨y, fun fuel hfuel => ?_⟩
      obtain ⟨fuel, rfl⟩ := Nat.exists_eq_add_one.mpr (Nat.zero_lt_of_lt hfuel)
      simp only [search, if_pos htaken]
      exact hy fuel (by omega)
    · refine ⟨x, fun fuel hfuel => ?_⟩
      obtain ⟨fuel, rfl⟩ := Nat.exists_eq_add_one.mpr (Nat.zero_lt_of_lt hfuel)
      simp [search, htaken]

namespace Cycle

variable {next : α → α} {mem : α → Prop} {length : ℕ}

theorem mem_iterate (c : Cycle next mem length) (i : ℕ) (x : α) (hx : mem x) :
    mem (next^[i] x) := by
  induction i with
  | zero => exact hx
  | succ i ih =>
    rw [Function.iterate_succ_apply']
    exact c.mem_next _ ih

theorem pos_iterate (c : Cycle next mem length) (i : ℕ) (x : α) (hx : mem x) :
    c.pos (next^[i] x) ≡ c.pos x + i [MOD length] := by
  induction i with
  | zero => exact Nat.ModEq.rfl
  | succ i ih =>
    rw [Function.iterate_succ_apply', c.pos_next _ (c.mem_iterate i x hx)]
    exact (Nat.mod_modEq _ _).trans (ih.add_right 1)

/-- The walk does not come back before it has been all the way round. -/
theorem iterate_injective (c : Cycle next mem length) (x : α) (hx : mem x) (i j : ℕ)
    (hi : i < length) (hj : j < length) (heq : next^[i] x = next^[j] x) : i = j := by
  have hsame : c.pos x + i ≡ c.pos x + j [MOD length] := by
    have hpos := c.pos_iterate i x hx
    rw [heq] at hpos
    exact hpos.symm.trans (c.pos_iterate j x hx)
  exact (Nat.ModEq.add_left_cancel' (c.pos x) hsame).eq_of_lt_of_lt hi hj

theorem exists_free [DecidableEq α] (c : Cycle next mem length) (x : α) (hx : mem x)
    (taken : List α) (hlen : taken.length < length) :
    ∃ i ≤ taken.length, next^[i] x ∉ taken := by
  by_contra hnone
  push Not at hnone
  have hmaps : ∀ i ∈ Finset.range (taken.length + 1), next^[i] x ∈ taken.toFinset := by
    intro i hi
    rw [List.mem_toFinset]
    exact hnone i (Nat.lt_succ_iff.mp (Finset.mem_range.mp hi))
  have hinj : Set.InjOn (fun i => next^[i] x) (Finset.range (taken.length + 1)) := by
    intro i hi j hj heq
    have hi := Finset.mem_range.mp (Finset.mem_coe.mp hi)
    have hj := Finset.mem_range.mp (Finset.mem_coe.mp hj)
    exact c.iterate_injective x hx i j (by omega) (by omega) heq
  have hcard := Finset.card_le_card_of_injOn _ hmaps hinj
  have hle := List.toFinset_card_le taken
  rw [Finset.card_range] at hcard
  omega

/-- The loop ends within one test more than there are taken places. -/
theorem search_ends [DecidableEq α] (c : Cycle next mem length) (x : α) (hx : mem x)
    (taken : List α) (hlen : taken.length < length) :
    ∃ y, ∀ fuel, taken.length < fuel →
      search next (fun z => decide (z ∈ taken)) fuel x = some y := by
  apply search_of_free
  obtain ⟨i, hi, hfree⟩ := c.exists_free x hx taken hlen
  exact ⟨i, hi, by simpa using hfree⟩

end Cycle

end ClantoDesk.CyclicSearch
