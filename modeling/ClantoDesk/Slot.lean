import Mathlib.Logic.Function.Basic

/-!
A slot that at most one party holds. Its flag is taken by an exchange and given
back by clearing it, and each party is in some phase of its program. The rules say how the
phases and the flag may change together. Nothing in this module refers to a particular program.
-/
namespace ClantoDesk.Slot

variable {I P : Type*}

/-- The flag is set while some party holds the slot, and no two parties hold it. -/
structure Kept (holds : P → Prop) (flag : Bool) (phase : I → P) : Prop where
  flagged : ∀ i, holds (phase i) → flag = true
  holder : flag = true → ∃ i, holds (phase i)
  unique : ∀ i j, holds (phase i) → holds (phase j) → i = j

variable (holds : P → Prop)

theorem kept_start (phase : I → P) (hphase : ∀ i, ¬ holds (phase i)) : Kept holds false phase := by
  refine ⟨?_, fun hflag => absurd hflag Bool.false_ne_true, ?_⟩
  · intro i hi
    exact absurd hi (hphase i)
  · intro i j hi
    exact absurd hi (hphase i)

variable [DecidableEq I] (flag : Bool) (phase : I → P) (i : I) (p : P)

theorem Kept.goto (hkept : Kept holds flag phase) (hp : holds p ↔ holds (phase i)) :
    Kept holds flag (Function.update phase i p) := by
  have hsame : ∀ j, holds (Function.update phase i p j) ↔ holds (phase j) := by
    intro j
    by_cases hj : j = i
    · subst hj
      rw [Function.update_self]
      exact hp
    · rw [Function.update_of_ne hj]
  refine ⟨?_, ?_, ?_⟩
  · intro j hj
    exact hkept.flagged j ((hsame j).mp hj)
  · intro hflag
    obtain ⟨j, hj⟩ := hkept.holder hflag
    exact ⟨j, (hsame j).mpr hj⟩
  · intro j k hj hk
    exact hkept.unique j k ((hsame j).mp hj) ((hsame k).mp hk)

theorem Kept.take (hkept : Kept holds flag phase) (hflag : ¬ flag = true) (hp : holds p) :
    Kept holds true (Function.update phase i p) := by
  have honly : ∀ j, holds (Function.update phase i p j) → j = i := by
    intro j hj
    by_contra hne
    rw [Function.update_of_ne hne] at hj
    exact hflag (hkept.flagged j hj)
  refine ⟨fun _ _ => rfl, ?_, ?_⟩
  · intro _
    exact ⟨i, by rwa [Function.update_self]⟩
  · intro j k hj hk
    rw [honly j hj, honly k hk]

theorem Kept.release (hkept : Kept holds flag phase) (hi : holds (phase i)) (hp : ¬ holds p) :
    Kept holds false (Function.update phase i p) := by
  refine kept_start holds _ ?_
  intro j hj
  by_cases hne : j = i
  · subst hne
    rw [Function.update_self] at hj
    exact hp hj
  · rw [Function.update_of_ne hne] at hj
    exact hne (hkept.unique j i hj hi)

/-- A party in a certain phase is still in it when another one goes on. -/
theorem exists_update (Q : P → Prop) (hex : ∃ j, Q (phase j)) (hi : Q (phase i) → Q p) :
    ∃ j, Q (Function.update phase i p j) := by
  obtain ⟨j, hj⟩ := hex
  by_cases hne : j = i
  · subst hne
    exact ⟨j, by rw [Function.update_self]; exact hi hj⟩
  · exact ⟨j, by rwa [Function.update_of_ne hne]⟩

end ClantoDesk.Slot
