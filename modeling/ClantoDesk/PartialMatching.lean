import Mathlib.Data.Nat.Notation
import Mathlib.Logic.Function.Basic

/-!
Partial matchings that are built up entry by entry: what is matched to what, and which of the right
side are taken. Nothing in this module refers to a particular program.
-/
namespace ClantoDesk

structure PartialMatching (I J : Type*) where
  matched : I → Option J
  taken : J → Bool

namespace PartialMatching

variable {I J : Type*} [DecidableEq I] [DecidableEq J]

def empty : PartialMatching I J := ⟨fun _ => none, fun _ => false⟩

def take (m : PartialMatching I J) (i : I) (j : J) : PartialMatching I J :=
  ⟨Function.update m.matched i (some j), Function.update m.taken j true⟩

/-- The right sides of the pairs are the taken ones, and none occurs twice. -/
structure Valid (m : PartialMatching I J) : Prop where
  taken_iff : ∀ j, m.taken j = true ↔ ∃ i, m.matched i = some j
  unique : ∀ i i' j, m.matched i = some j → m.matched i' = some j → i = i'

def Extends (m n : PartialMatching I J) : Prop :=
  ∀ i j, m.matched i = some j → n.matched i = some j

omit [DecidableEq I] [DecidableEq J] in
theorem extends_refl (m : PartialMatching I J) : Extends m m := fun _ _ h => h

omit [DecidableEq I] [DecidableEq J] in
theorem Extends.trans (l m n : PartialMatching I J) (hlm : Extends l m) (hmn : Extends m n) :
    Extends l n := fun i j h => hmn i j (hlm i j h)

omit [DecidableEq I] [DecidableEq J] in
theorem valid_empty : Valid (empty : PartialMatching I J) := by
  refine ⟨?_, ?_⟩
  · intro j
    simp [empty]
  · intro i i' j hi
    cases hi

variable (m : PartialMatching I J) (i : I) (j : J)

@[simp] theorem matched_take_self : (m.take i j).matched i = some j :=
  Function.update_self ..

theorem matched_take_of_ne (i' : I) (hne : i' ≠ i) : (m.take i j).matched i' = m.matched i' :=
  Function.update_of_ne hne _ _

theorem matched_take (i' : I) :
    (m.take i j).matched i' = if i' = i then some j else m.matched i' := by
  by_cases hne : i' = i
  · rw [if_pos hne, hne, matched_take_self]
  · rw [if_neg hne, matched_take_of_ne m i j i' hne]

theorem taken_take (j' : J) : (m.take i j).taken j' = true ↔ j' = j ∨ m.taken j' = true := by
  by_cases hne : j' = j
  · subst hne
    simp [take]
  · simp [take, hne]

theorem extends_take (hi : m.matched i = none) : Extends m (m.take i j) := by
  intro i' j' h
  rw [matched_take_of_ne m i j i' fun heq => by rw [heq, hi] at h; cases h]
  exact h

theorem Valid.take (hm : Valid m) (hi : m.matched i = none) (hj : ¬ m.taken j = true) :
    Valid (m.take i j) := by
  have hfree : ∀ i', m.matched i' ≠ some j := fun i' h => hj ((hm.taken_iff j).mpr ⟨i', h⟩)
  refine ⟨?_, ?_⟩
  · intro j'
    rw [taken_take, hm.taken_iff]
    constructor
    · rintro (rfl | ⟨i', hi'⟩)
      · exact ⟨i, matched_take_self m i j'⟩
      · exact ⟨i', extends_take m i j hi i' j' hi'⟩
    · rintro ⟨i', hi'⟩
      rw [matched_take] at hi'
      split at hi'
      · exact Or.inl (Option.some.inj hi').symm
      · exact Or.inr ⟨i', hi'⟩
  · intro a b j' ha hb
    rw [matched_take] at ha hb
    split at ha
    next heq =>
      obtain rfl := Option.some.inj ha
      split at hb
      next heq' => rw [heq, heq']
      next => exact absurd hb (hfree b)
    next =>
      split at hb
      next =>
        obtain rfl := Option.some.inj hb
        exact absurd ha (hfree a)
      next => exact hm.unique a b j' ha hb

/-! ### Passes along an indexed list -/

/-- What holds of the entries so far, and is kept by the next one, holds in the end. -/
theorem foldl_prefix {E S : Type*} (step : S → E → S) (P : List E → S → Prop) (start : S)
    (full : List E) (hstart : P [] start)
    (hstep : ∀ before e after s, full = before ++ e :: after → P before s →
      P (before ++ [e]) (step s e)) : P full (full.foldl step start) := by
  have hfrom : ∀ after before s, full = before ++ after → P before s →
      P full (after.foldl step s) := by
    intro after
    induction after with
    | nil =>
      intro before s heq hs
      rw [heq, List.append_nil]
      exact hs
    | cons e after ih =>
      intro before s heq hs
      exact ih (before ++ [e]) (step s e) (by rw [heq, List.append_assoc]; rfl)
        (hstep before e after s heq hs)
  exact hfrom full [] start rfl hstart

theorem index_ne_of_zipIdx {D : Type*} (xs : List D) (before after : List (D × ℕ)) (e f : D × ℕ)
    (hxs : xs.zipIdx = before ++ e :: after) (hf : f ∈ before) : f.2 ≠ e.2 := by
  have hnodup : (xs.zipIdx.map Prod.snd).Nodup := by
    rw [List.zipIdx_map_snd]
    exact List.nodup_range'
  rw [hxs, List.map_append, List.map_cons] at hnodup
  intro heq
  exact (List.nodup_append.mp hnodup).2.2 _ (List.mem_map_of_mem hf) _
    (List.mem_cons_self ..) heq

end PartialMatching

end ClantoDesk
