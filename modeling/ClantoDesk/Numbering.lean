import Mathlib.Data.List.Basic

/-!
Numbers given out in epochs, by a counter that may lag behind what it has given. A counter
that is behind by `k` will give the last `k` numbers of its epoch again, so the numbers
stay in order exactly as long as only counters that are not behind give any.
Nothing in this module refers to a particular program.
-/
namespace ClantoDesk.Numbering

variable {E : Type*}

def Ascending (given : List (E × ℕ)) : Prop :=
  given.Pairwise fun a b => a.1 = b.1 → a.2 < b.2

/-- The counter at `next` is behind by `k` numbers of its epoch. -/
structure Behind (given : List (E × ℕ)) (epoch : E) (next k : ℕ) : Prop where
  below : ∀ r ∈ given, r.1 = epoch → r.2 < next + k
  last : k ≠ 0 → ∃ r ∈ given, r.1 = epoch ∧ r.2 + 1 = next + k

variable {given : List (E × ℕ)} {epoch : E} {next k : ℕ}

theorem ascending_concat (given : List (E × ℕ)) (epoch : E) (n : ℕ) :
    Ascending (given ++ [(epoch, n)]) ↔
      Ascending given ∧ ∀ r ∈ given, r.1 = epoch → r.2 < n := by
  simp [Ascending, List.pairwise_append]

theorem Ascending.nodup (h : Ascending given) : given.Nodup := by
  refine List.Pairwise.imp ?_ h
  intro a b hab heq
  have hlt := hab (congrArg Prod.fst heq)
  rw [heq] at hlt
  exact Nat.lt_irrefl _ hlt

/-- The next number of a counter keeps the order exactly if the counter is not behind. -/
theorem Behind.ascending_iff (h : Behind given epoch next k) (hgiven : Ascending given) :
    Ascending (given ++ [(epoch, next)]) ↔ k = 0 := by
  rw [ascending_concat]
  constructor
  · rintro ⟨-, hbelow⟩
    by_contra hk
    obtain ⟨r, hr, hepoch, hlast⟩ := h.last hk
    have hlt := hbelow r hr hepoch
    omega
  · intro hk
    refine ⟨hgiven, fun r hr hepoch => ?_⟩
    have hlt := h.below r hr hepoch
    omega

theorem behind_new (given : List (E × ℕ)) (epoch : E) (next : ℕ)
    (hnew : ∀ r ∈ given, r.1 ≠ epoch) : Behind given epoch next 0 := by
  refine ⟨fun r hr hepoch => absurd hepoch (hnew r hr), fun h => absurd rfl h⟩

theorem Behind.other (h : Behind given epoch next k) (epoch' : E) (n : ℕ) (hne : epoch' ≠ epoch) :
    Behind (given ++ [(epoch', n)]) epoch next k := by
  constructor
  · intro r hr hepoch
    rcases List.mem_append.mp hr with hr | hr
    · exact h.below r hr hepoch
    · rw [List.mem_singleton.mp hr] at hepoch
      exact absurd hepoch hne
  · intro hk
    obtain ⟨r, hr, hlast⟩ := h.last hk
    exact ⟨r, List.mem_append_left _ hr, hlast⟩

theorem Behind.give
    (h : Behind given epoch next 0) : Behind (given ++ [(epoch, next)]) epoch (next + 1) 0 := by
  refine ⟨fun r hr hepoch => ?_, fun hk => absurd rfl hk⟩
  rcases List.mem_append.mp hr with hr | hr
  · have hlt := h.below r hr hepoch
    omega
  · rw [List.mem_singleton.mp hr]
    exact Nat.lt_succ_self next

/-- A copy of the counter that misses the number falls behind by one more. -/
theorem Behind.miss (h : Behind given epoch next k) (n : ℕ) (hn : next + k = n) :
    Behind (given ++ [(epoch, n)]) epoch next (k + 1) := by
  constructor
  · intro r hr hepoch
    rcases List.mem_append.mp hr with hr | hr
    · have hlt := h.below r hr hepoch
      omega
    · rw [List.mem_singleton.mp hr]
      show n < next + (k + 1)
      omega
  · intro _
    exact ⟨(epoch, n), List.mem_append_right _ (List.mem_singleton_self _), rfl, by
      show n + 1 = next + (k + 1)
      omega⟩

/-- A counter that passes over a number without giving it comes nearer by one. -/
theorem Behind.skip (h : Behind given epoch next k) : Behind given epoch (next + 1) (k - 1) := by
  constructor
  · intro r hr hepoch
    have hlt := h.below r hr hepoch
    omega
  · intro hk
    obtain ⟨r, hr, hepoch, hlast⟩ := h.last (by omega)
    exact ⟨r, hr, hepoch, by omega⟩

end ClantoDesk.Numbering
