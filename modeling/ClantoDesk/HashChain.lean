import Mathlib.Data.List.Infix
import Mathlib.Data.List.Chain

/-!
Chains of records in which each names the hash of the record before it. A record may
also begin a chain, by naming a fixed hash that no record has. What is linked in the same way
and made of the same records is then a contiguous piece of the whole history. Nothing in this module
refers to a particular program.
-/
namespace ClantoDesk.HashChain

variable {R H : Type*}

def Recorded (hash prev : R → H) (genesis : H) (history : List R) : Prop :=
  ∀ before r, before ++ [r] <+: history →
    prev r = genesis ∨ ∃ earlier u, before = earlier ++ [u] ∧ prev r = hash u

theorem recorded_nil (hash prev : R → H) (genesis : H) : Recorded hash prev genesis [] := by
  intro before r hfront
  simp at hfront

theorem Recorded.append {hash prev : R → H} {genesis : H} {history : List R}
    (h : Recorded hash prev genesis history) (r : R)
    (hr : prev r = genesis ∨ ∃ u, history.getLast? = some u ∧ prev r = hash u) :
    Recorded hash prev genesis (history ++ [r]) := by
  intro before v hfront
  rcases List.prefix_concat_iff.mp hfront with heq | hold
  · obtain ⟨rfl, hv⟩ := List.append_inj' heq rfl
    obtain rfl := List.singleton_inj.mp hv
    rcases hr with hgenesis | ⟨u, hlast, hprev⟩
    · exact Or.inl hgenesis
    · obtain ⟨earlier, rfl⟩ := List.getLast?_eq_some_iff.mp hlast
      exact Or.inr ⟨earlier, u, rfl, hprev⟩
  · exact h before v hold

variable (hash prev : R → H) (genesis : H) (history : List R)

theorem suffix_of_linked (hrecorded : Recorded hash prev genesis history)
    (hgenesis : ∀ u ∈ history, hash u ≠ genesis) (segment before : List R) (r : R)
    (hfront : before ++ [r] <+: history) (hmem : ∀ v ∈ segment, v ∈ history)
    (hinj : ∀ u ∈ segment, ∀ v ∈ history, hash u = hash v → u = v)
    (hchain : (segment ++ [r]).IsChain fun u v => prev v = hash u) :
    segment ++ [r] <:+ before ++ [r] := by
  induction segment using List.reverseRecOn generalizing before r with
  | nil => exact List.suffix_append _ _
  | append_singleton us u ih =>
    obtain ⟨hus, -, hlink⟩ := List.isChain_append.mp hchain
    have hprev : prev r = hash u := hlink u (by simp) r (by simp)
    have hu : u ∈ history := hmem u (by simp)
    rcases hrecorded before r hfront with hbegins | ⟨earlier, w, rfl, hw⟩
    · exact absurd (hprev.symm.trans hbegins) (hgenesis u hu)
    · have hearlier : earlier ++ [w] <+: history := (List.prefix_append _ [r]).trans hfront
      have hwmem : w ∈ history := hearlier.subset (by simp)
      obtain rfl := hinj u (by simp) w hwmem (hprev.symm.trans hw)
      have hsuffix := ih earlier u hearlier (fun v hv => hmem v (List.mem_append_left _ hv))
        (fun v hv => hinj v (List.mem_append_left _ hv)) hus
      obtain ⟨front, hfront⟩ := hsuffix
      refine ⟨front, ?_⟩
      rw [← List.append_assoc, hfront]

theorem infix_of_linked (hrecorded : Recorded hash prev genesis history)
    (hgenesis : ∀ u ∈ history, hash u ≠ genesis) (segment : List R)
    (hmem : ∀ v ∈ segment, v ∈ history)
    (hinj : ∀ u ∈ segment, ∀ v ∈ history, hash u = hash v → u = v)
    (hchain : segment.IsChain fun u v => prev v = hash u) : segment <:+: history := by
  rcases List.eq_nil_or_concat segment with rfl | ⟨us, r, rfl⟩
  · exact List.nil_infix
  · rw [List.concat_eq_append] at *
    obtain ⟨before, after, hsplit⟩ := List.append_of_mem (hmem r (by simp))
    have hfront : before ++ [r] <+: history := ⟨after, by simp [hsplit]⟩
    have hsuffix := suffix_of_linked hash prev genesis history hrecorded hgenesis us before r
      hfront (fun v hv => hmem v (List.mem_append_left _ hv))
      (fun v hv => hinj v (List.mem_append_left _ hv)) hchain
    exact hsuffix.isInfix.trans hfront.isInfix

end ClantoDesk.HashChain
