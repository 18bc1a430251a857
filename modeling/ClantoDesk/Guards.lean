/-!
Results behind a condition. Nothing in this module refers to a particular program.
-/
namespace ClantoDesk

universe u

variable {α : Type u} {c : Prop} [Decidable c] {a b : α}

theorem of_guard (h : (if c then some a else none) = some b) : c ∧ a = b := by
  obtain ⟨hc, h⟩ := Option.ite_none_right_eq_some.mp h
  exact ⟨hc, Option.some.inj h⟩

theorem of_guard_not (h : (if c then none else some a) = some b) : ¬c ∧ a = b := by
  obtain ⟨hc, h⟩ := Option.ite_none_left_eq_some.mp h
  exact ⟨hc, Option.some.inj h⟩

end ClantoDesk
