import Mathlib.Algebra.BigOperators.Group.Multiset.Basic
import Mathlib.Algebra.Group.Prod
import Mathlib.Algebra.Order.Ring.Int
import Mathlib.Order.Bounds.Basic

/-!
Passes over the points of a rectangle, row by row, that add up what each point contributes, and
the extent of the numbers a loop meets. Nothing in this module refers to a particular program.
-/
namespace ClantoDesk.Passes

def span (lo hi : ℤ) : List ℤ := (List.range (hi - lo + 1).toNat).map fun i : ℕ => lo + i

theorem mem_span (lo hi v : ℤ) : v ∈ span lo hi ↔ lo ≤ v ∧ v ≤ hi := by
  simp only [span, List.mem_map, List.mem_range]
  constructor
  · rintro ⟨i, hlt, rfl⟩
    omega
  · intro h
    exact ⟨(v - lo).toNat, by omega, by omega⟩

theorem span_add (lo hi d : ℤ) : span (lo + d) (hi + d) = (span lo hi).map (· + d) := by
  have hlength : hi + d - (lo + d) + 1 = hi - lo + 1 := by omega
  simp only [span, List.map_map, hlength]
  exact List.map_congr_left fun i _ => by simp only [Function.comp_apply]; omega

section Pass

variable {M N : Type} [AddCommMonoid M] [AddCommMonoid N] (xs ys : List ℤ) (f : ℤ → ℤ → M)

def pass : M := ys.foldl (fun s y => xs.foldl (fun s x => s + f x y) s) 0

theorem foldl_add_eq {ι : Type} (g : ι → M) (l : List ι) (s : M) :
    l.foldl (fun s i => s + g i) s = s + (l.map g).sum := by
  induction l generalizing s with
  | nil => simp
  | cons i l ih => simp only [List.foldl_cons, ih, List.map_cons, List.sum_cons, add_assoc]

theorem pass_eq_sum : pass xs ys f = (ys.map fun y => (xs.map fun x => f x y).sum).sum := by
  simp only [pass, foldl_add_eq, zero_add]

theorem pass_swap : pass ys xs (fun y x => f x y) = pass xs ys f := by
  simp only [pass_eq_sum]
  simpa using Multiset.sum_map_sum_map (f := fun x y => f x y) (xs : Multiset ℤ) (ys : Multiset ℤ)

theorem pass_congr (g : ℤ → ℤ → M) (h : ∀ x ∈ xs, ∀ y ∈ ys, f x y = g x y) :
    pass xs ys f = pass xs ys g := by
  simp only [pass_eq_sum]
  congr 1
  refine List.map_congr_left fun y hy => ?_
  congr 1
  exact List.map_congr_left fun x hx => h x hx y hy

theorem pass_map (d e : ℤ → ℤ) :
    pass (xs.map d) (ys.map e) f = pass xs ys fun x y => f (d x) (e y) := by
  simp only [pass, List.foldl_map]

theorem map_pass (g : M →+ N) : g (pass xs ys f) = pass xs ys fun x y => g (f x y) := by
  simp only [pass_eq_sum, map_list_sum, List.map_map, Function.comp_def]

end Pass

/-- The numbers from `lo` to `hi`. -/
structure Extent where
  lo : ℤ
  hi : ℤ

namespace Extent

def grow (e : Extent) (v : ℤ) : Extent := ⟨min e.lo v, max e.hi v⟩

def Hull (S : Set ℤ) (e : Extent) : Prop := IsLeast S e.lo ∧ IsGreatest S e.hi

def shift (e : Extent) (d : ℤ) : Extent := ⟨e.lo + d, e.hi + d⟩

@[simp] theorem shift_lo (e : Extent) (d : ℤ) : (e.shift d).lo = e.lo + d := rfl

@[simp] theorem shift_hi (e : Extent) (d : ℤ) : (e.shift d).hi = e.hi + d := rfl

theorem Hull.unique {S : Set ℤ} {e f : Extent} (he : Hull S e) (hf : Hull S f) : e = f := by
  obtain ⟨lo, hi⟩ := e
  obtain ⟨lo', hi'⟩ := f
  obtain rfl : lo = lo' := he.1.unique hf.1
  obtain rfl : hi = hi' := he.2.unique hf.2
  rfl

theorem Hull.shift {S T : Set ℤ} {e : Extent} (d : ℤ) (he : Hull S e)
    (hT : ∀ v, v ∈ T ↔ v - d ∈ S) : Hull T (e.shift d) := by
  refine ⟨⟨?_, fun v hv => ?_⟩, ?_, fun v hv => ?_⟩
  · exact (hT _).mpr (by simpa using he.1.1)
  · have hle := he.1.2 ((hT v).mp hv)
    rw [shift_lo]
    omega
  · exact (hT _).mpr (by simpa using he.2.1)
  · have hle := he.2.2 ((hT v).mp hv)
    rw [shift_hi]
    omega

variable {ι : Type} (p : ι → Bool) (v : ι → ℤ) (l : List ι) (e : Extent)

def grown : Extent := l.foldl (fun e i => if p i then e.grow (v i) else e) e

theorem grown_spec :
    (∀ i ∈ l, p i = true → (grown p v l e).lo ≤ v i ∧ v i ≤ (grown p v l e).hi) ∧
    ((grown p v l e).lo ≤ e.lo ∧ e.hi ≤ (grown p v l e).hi) ∧
    ((grown p v l e).lo = e.lo ∨ ∃ i ∈ l, p i = true ∧ v i = (grown p v l e).lo) ∧
    ((grown p v l e).hi = e.hi ∨ ∃ i ∈ l, p i = true ∧ v i = (grown p v l e).hi) := by
  induction l generalizing e with
  | nil => simp [grown]
  | cons j l ih =>
    have hcons : grown p v (j :: l) e = grown p v l (if p j then e.grow (v j) else e) := rfl
    rw [hcons]
    by_cases hj : p j = true
    · rw [if_pos hj]
      obtain ⟨hall, ⟨hlo, hhi⟩, hleast, hgreatest⟩ := ih (e.grow (v j))
      obtain ⟨hlo, hloj⟩ := le_min_iff.mp hlo
      obtain ⟨hhi, hhij⟩ := max_le_iff.mp hhi
      refine ⟨List.forall_mem_cons.mpr ⟨fun _ => ⟨hloj, hhij⟩, hall⟩, ⟨hlo, hhi⟩, ?_, ?_⟩
      · rcases hleast with heq | ⟨i, hi, hpi⟩
        · rcases min_choice e.lo (v j) with hmin | hmin
          · exact Or.inl (heq.trans hmin)
          · exact Or.inr ⟨j, List.mem_cons_self .., hj, (heq.trans hmin).symm⟩
        · exact Or.inr ⟨i, List.mem_cons_of_mem _ hi, hpi⟩
      · rcases hgreatest with heq | ⟨i, hi, hpi⟩
        · rcases max_choice e.hi (v j) with hmax | hmax
          · exact Or.inl (heq.trans hmax)
          · exact Or.inr ⟨j, List.mem_cons_self .., hj, (heq.trans hmax).symm⟩
        · exact Or.inr ⟨i, List.mem_cons_of_mem _ hi, hpi⟩
    · rw [if_neg hj]
      obtain ⟨hall, hstart, hleast, hgreatest⟩ := ih e
      refine ⟨List.forall_mem_cons.mpr ⟨fun h => absurd h hj, hall⟩, hstart,
        hleast.imp_right ?_, hgreatest.imp_right ?_⟩ <;>
      exact fun ⟨i, hi, hpi⟩ => ⟨i, List.mem_cons_of_mem _ hi, hpi⟩

/-- A loop that starts beyond all its numbers ends with their hull. -/
theorem hull_grown (hbeyond : ∀ i ∈ l, p i = true → e.hi < v i ∧ v i < e.lo)
    (hsome : ∃ i ∈ l, p i = true) : Hull {n | ∃ i ∈ l, p i = true ∧ v i = n} (grown p v l e) := by
  obtain ⟨hall, -, hleast, hgreatest⟩ := grown_spec p v l e
  obtain ⟨i, hi, hpi⟩ := hsome
  have hwithin := hall i hi hpi
  have hi' := hbeyond i hi hpi
  refine ⟨⟨hleast.resolve_left fun heq => by omega, ?_⟩,
    hgreatest.resolve_left fun heq => by omega, ?_⟩
  · rintro _ ⟨j, hj, hpj, rfl⟩
    exact (hall j hj hpj).1
  · rintro _ ⟨j, hj, hpj, rfl⟩
    exact (hall j hj hpj).2

theorem grown_none (hnone : ∀ i ∈ l, p i = false) : grown p v l e = e := by
  induction l generalizing e with
  | nil => rfl
  | cons j l ih =>
    obtain ⟨hj, hrest⟩ := List.forall_mem_cons.mp hnone
    have hstep : (if p j then e.grow (v j) else e) = e := by simp [hj]
    simp only [grown, List.foldl_cons, hstep]
    exact ih e hrest

end Extent

end ClantoDesk.Passes
