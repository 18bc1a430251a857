import Mathlib.Data.List.Basic
import Mathlib.Data.List.Infix
import Mathlib.Data.Nat.Notation
import Mathlib.Tactic.Common

/-!
Replacing every occurrence of a pattern in a text, from left to right. An element that is not in the
pattern separates the text: the parts before and after it are replaced on their own. A text in which
the pattern does not occur stays as it is. Nothing in this module refers to a particular program.
-/
namespace ClantoDesk.Replacement

variable {α : Type*} [DecidableEq α] (pattern replacement : List α)

/-- The first `skip` elements belong to an occurrence that is replaced already. -/
def replaceFrom : ℕ → List α → List α
  | _, [] => []
  | skip + 1, _ :: text => replaceFrom skip text
  | 0, c :: text =>
    if pattern.isPrefixOf (c :: text) then
      replacement ++ replaceFrom (pattern.length - 1) text
    else c :: replaceFrom 0 text

def replaceAll (text : List α) : List α := replaceFrom pattern replacement 0 text

theorem isPrefixOf_append_cons (sep : α) (text rest : List α) (hsep : sep ∉ pattern) :
    pattern.isPrefixOf (text ++ sep :: rest) = pattern.isPrefixOf text := by
  rw [Bool.eq_iff_iff, List.isPrefixOf_iff_prefix, List.isPrefixOf_iff_prefix]
  constructor
  · intro h
    by_cases hlength : pattern.length ≤ text.length
    · exact List.prefix_of_prefix_length_le h (List.prefix_append text _) hlength
    · have hlong : text ++ [sep] <+: pattern := by
        apply List.prefix_of_prefix_length_le _ h
        · rw [List.length_append, List.length_singleton]
          omega
        · exact ⟨rest, by simp⟩
      exact absurd (hlong.subset (by simp)) hsep
  · intro h
    exact h.trans (List.prefix_append text _)

theorem replaceFrom_append_cons (sep : α) (text rest : List α) (skip : ℕ)
    (hsep : sep ∉ pattern) (hskip : skip ≤ text.length) (hpattern : pattern ≠ []) :
    replaceFrom pattern replacement skip (text ++ sep :: rest) =
      replaceFrom pattern replacement skip text ++
        sep :: replaceFrom pattern replacement 0 rest := by
  induction text generalizing skip with
  | nil =>
    obtain rfl : skip = 0 := Nat.le_zero.mp hskip
    have hnot : pattern.isPrefixOf (sep :: rest) = false := by
      have h := isPrefixOf_append_cons pattern sep [] rest hsep
      rw [List.nil_append] at h
      rw [h]
      cases pattern with
      | nil => exact absurd rfl hpattern
      | cons p pattern => rfl
    simp [replaceFrom, hnot]
  | cons c text ih =>
    cases skip with
    | succ skip =>
      rw [List.cons_append, replaceFrom, replaceFrom]
      exact ih skip (Nat.succ_le_succ_iff.mp hskip)
    | zero =>
      have hsame := isPrefixOf_append_cons pattern sep (c :: text) rest hsep
      rw [List.cons_append] at hsame ⊢
      rw [replaceFrom, replaceFrom, hsame]
      split
      · rename_i hfits
        have hlength := (List.isPrefixOf_iff_prefix.mp hfits).length_le
        rw [List.length_cons] at hlength
        rw [ih _ (by omega), List.append_assoc]
      · rw [ih 0 (Nat.zero_le _), List.cons_append]

theorem replaceAll_append_cons (sep : α) (text rest : List α) (hsep : sep ∉ pattern)
    (hpattern : pattern ≠ []) :
    replaceAll pattern replacement (text ++ sep :: rest) =
      replaceAll pattern replacement text ++ sep :: replaceAll pattern replacement rest :=
  replaceFrom_append_cons pattern replacement sep text rest 0 hsep (Nat.zero_le _) hpattern

theorem replaceAll_of_not_infix (text : List α) (h : ¬ pattern <:+: text) :
    replaceAll pattern replacement text = text := by
  induction text with
  | nil => rfl
  | cons c text ih =>
    have hnot : pattern.isPrefixOf (c :: text) = false := by
      rw [Bool.eq_false_iff, ne_eq, List.isPrefixOf_iff_prefix]
      exact fun hfront => h hfront.isInfix
    have htail : ¬ pattern <:+: text := by
      intro hwithin
      exact h (hwithin.trans (List.suffix_cons c text).isInfix)
    rw [replaceAll, replaceFrom, hnot]
    exact congrArg (c :: ·) (ih htail)

end ClantoDesk.Replacement
