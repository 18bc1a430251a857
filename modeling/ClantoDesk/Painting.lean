import Mathlib.Data.List.Basic
import Mathlib.Data.Nat.Notation
import Mathlib.Tactic.Common

/-!
Loops that write the cells of a list. A write outside of the list fails. What a loop has painted
is a relation of indices and values: it holds of the result where it says something, and the other
cells are kept. Steps that agree where they overlap compose.
Nothing in this module refers to a particular program.
-/
namespace ClantoDesk.Painting

variable {β S : Type*}

def put (i : ℕ) (v : β) (cells : List β) : Option (List β) :=
  if i < cells.length then some (cells.set i v) else none

/-- The step for each number below `n`, in order. -/
def steps (f : ℕ → S → Option S) : ℕ → S → Option S
  | 0, s => some s
  | n + 1, s => (steps f n s).bind (f n)

theorem steps_none (f : ℕ → S → Option S) (n : ℕ) (s : S) (hn : 0 < n) (hfirst : f 0 s = none) :
    steps f n s = none := by
  induction n with
  | zero => omega
  | succ n ih =>
    rcases n.eq_zero_or_pos with rfl | hpos
    · exact hfirst
    · rw [steps, ih hpos]
      rfl

/-- The cells with a value in `paint` have it, and the others are as before. -/
structure Painted (paint : ℕ → β → Prop) (before after : List β) : Prop where
  length : after.length = before.length
  painted : ∀ i v, paint i v → after[i]? = some v
  kept : ∀ i : ℕ, (∀ v, ¬paint i v) → after[i]? = before[i]?

theorem Painted.refl (cells : List β) : Painted (fun _ _ => False) cells cells :=
  ⟨rfl, fun _ _ h => h.elim, fun _ _ => rfl⟩

theorem painted_put (i : ℕ) (v : β) (cells : List β) (hi : i < cells.length) :
    ∃ after, put i v cells = some after ∧ Painted (fun j w => j = i ∧ w = v) cells after := by
  refine ⟨cells.set i v, if_pos hi, List.length_set, ?_, ?_⟩
  · rintro j w ⟨rfl, rfl⟩
    exact List.getElem?_set_self hi
  · intro j hj
    exact List.getElem?_set_ne fun hij => hj v ⟨hij.symm, rfl⟩

theorem Painted.trans (P Q : ℕ → β → Prop) (a b c : List β) (hP : Painted P a b)
    (hQ : Painted Q b c) (hagree : ∀ i v w, P i v → Q i w → v = w) :
    Painted (fun i v => P i v ∨ Q i v) a c := by
  refine ⟨hQ.length.trans hP.length, ?_, ?_⟩
  · rintro i v (hv | hv)
    · by_cases hover : ∃ w, Q i w
      · obtain ⟨w, hw⟩ := hover
        rw [hagree i v w hv hw]
        exact hQ.painted i w hw
      · rw [hQ.kept i fun w hw => hover ⟨w, hw⟩]
        exact hP.painted i v hv
    · exact hQ.painted i v hv
  · intro i hi
    rw [hQ.kept i fun v hv => hi v (Or.inr hv), hP.kept i fun v hv => hi v (Or.inl hv)]

theorem Painted.congr (P Q : ℕ → β → Prop) (a b : List β) (h : Painted P a b)
    (hPQ : ∀ i v, Q i v ↔ P i v) : Painted Q a b := by
  obtain rfl : P = Q := by
    funext i v
    exact propext (hPQ i v).symm
  exact h

theorem painted_steps (f : ℕ → List β → Option (List β)) (P : ℕ → ℕ → β → Prop) (n : ℕ)
    (before : List β)
    (hstep : ∀ k < n, ∀ cells : List β, cells.length = before.length →
      ∃ after, f k cells = some after ∧ Painted (P k) cells after)
    (hagree : ∀ j k, j < k → k < n → ∀ i v w, P j i v → P k i w → v = w) :
    ∃ after, steps f n before = some after ∧ Painted (fun i v => ∃ k < n, P k i v) before after := by
  induction n with
  | zero => exact ⟨before, rfl, (Painted.refl before).congr _ _ _ _ fun i v => by simp⟩
  | succ n ih =>
    obtain ⟨middle, hmiddle, hpainted⟩ := ih (fun k hk => hstep k (by omega))
      fun j k hjk hk => hagree j k hjk (by omega)
    obtain ⟨after, hafter, hlast⟩ := hstep n (by omega) middle hpainted.length
    refine ⟨after, by rw [steps, hmiddle, Option.bind_some, hafter], ?_⟩
    refine (hpainted.trans _ _ _ _ _ hlast ?_).congr _ _ _ _ fun i v => ?_
    · rintro i v w ⟨k, hk, hv⟩ hw
      exact hagree k n hk (by omega) i v w hv hw
    · constructor
      · rintro ⟨k, hk, hv⟩
        rcases Nat.lt_succ_iff_lt_or_eq.mp hk with hlt | rfl
        · exact Or.inl ⟨k, hlt, hv⟩
        · exact Or.inr hv
      · rintro (⟨k, hk, hv⟩ | hv)
        · exact ⟨k, by omega, hv⟩
        · exact ⟨n, by omega, hv⟩

/-- Rows of `w` cells one after the other: an index has one row and one column. -/
theorem cell_inj (w x x' y y' : ℕ) (hx : x < w) (hx' : x' < w) (h : y * w + x = y' * w + x') :
    y = y' ∧ x = x' := by
  have hrow : ∀ y x, x < w → (y * w + x) / w = y := by
    intro y x hx
    rw [Nat.mul_comm, Nat.mul_add_div (by omega), Nat.div_eq_of_lt hx, Nat.add_zero]
  have hy : y = y' := by rw [← hrow y x hx, h, hrow y' x' hx']
  subst hy
  exact ⟨rfl, by omega⟩

theorem cell_lt (w h x y : ℕ) (hx : x < w) (hy : y < h) : y * w + x < w * h := by
  have hrows : (y + 1) * w ≤ h * w := Nat.mul_le_mul_right w hy
  rw [Nat.add_mul, Nat.one_mul, Nat.mul_comm h w] at hrows
  omega

theorem exists_cell (w h i : ℕ) (hi : i < w * h) : ∃ x y, x < w ∧ y < h ∧ i = y * w + x := by
  have hw : 0 < w := Nat.pos_of_lt_mul_right hi
  refine ⟨i % w, i / w, Nat.mod_lt i hw, Nat.div_lt_of_lt_mul hi, ?_⟩
  rw [Nat.mul_comm, Nat.div_add_mod]

end ClantoDesk.Painting
