import Mathlib.Tactic.Common

/-!
Computations that record what they use. A computation has a value and the trace of the resources it
used for it, in order; in a sequence the traces follow one another. What holds of every resource of
the parts holds of every resource of the whole. Nothing in this module refers to a particular
program.
-/
namespace ClantoDesk

structure Traced (R α : Type) where
  value : α
  trace : List R

namespace Traced

variable {R α β : Type}

instance : Monad (Traced R) where
  pure a := ⟨a, []⟩
  bind m f := ⟨(f m.value).value, m.trace ++ (f m.value).trace⟩

def use (r : R) : Traced R Unit := ⟨(), [r]⟩

@[simp] theorem value_pure (a : α) : (pure a : Traced R α).value = a := rfl

@[simp] theorem value_bind (m : Traced R α) (f : α → Traced R β) :
    (m >>= f).value = (f m.value).value := rfl

/-- Everything that is used satisfies `P`. -/
def Uses (P : R → Prop) (m : Traced R α) : Prop := ∀ r ∈ m.trace, P r

theorem uses_pure (P : R → Prop) (a : α) : Uses P (pure a : Traced R α) :=
  fun _ hr => absurd hr List.not_mem_nil

theorem uses_use (P : R → Prop) (r : R) (h : P r) : Uses P (use r) := by
  intro s hs
  rw [List.mem_singleton.mp hs]
  exact h

theorem uses_bind (P : R → Prop) (m : Traced R α) (f : α → Traced R β) (hm : Uses P m)
    (hf : Uses P (f m.value)) : Uses P (m >>= f) := by
  intro r hr
  rcases List.mem_append.mp hr with hr | hr
  · exact hm r hr
  · exact hf r hr

theorem Uses.mono (P Q : R → Prop) (m : Traced R α) (h : Uses P m) (hPQ : ∀ r, P r → Q r) :
    Uses Q m :=
  fun r hr => hPQ r (h r hr)

end Traced

end ClantoDesk
