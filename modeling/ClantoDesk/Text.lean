import ClantoDesk.UnicodeCase
import Mathlib.Data.List.DropRight

/-!
Operations on character strings with the meaning the standard library of the
modelled program gives them: trimming Unicode white space, the part before the
first occurrence of a separator, equality up to ASCII case. A string is
the list of its characters. Nothing in this module refers to a particular program.
-/
namespace ClantoDesk.Text

open UnicodeCase

abbrev Str := List Char

instance instLawfulBEqStr : LawfulBEq (List Char) := inferInstance

def isWhitespace (c : Char) : Bool :=
  let n := c.toNat
  decide (9 ≤ n ∧ n ≤ 13) || n == 32 || n == 133 || n == 160 || n == 5760 ||
    decide (8192 ≤ n ∧ n ≤ 8202) || n == 8232 || n == 8233 || n == 8239 || n == 8287 ||
    n == 12288

def byteLength (s : Str) : ℕ := (s.map Char.utf8Size).sum

def trim (s : Str) : Str := (s.dropWhile isWhitespace).rdropWhile isWhitespace

/-- The part of `s` before the first `sep`; all of `s` when there is none. -/
def beforeFirst (sep : Char) (s : Str) : Str := s.takeWhile fun c => c != sep

def eqIgnoreAsciiCase (a b : Str) : Bool := a.map Char.toLower == b.map Char.toLower

variable (sep : Char) (s post : Str)

theorem eqIgnoreAsciiCase_iff (a b : Str) :
    eqIgnoreAsciiCase a b = true ↔ a.map Char.toLower = b.map Char.toLower := by
  simp [eqIgnoreAsciiCase]

/-- Trimming only removes white space at the two ends. -/
theorem exists_trim :
    ∃ pre post, s = pre ++ trim s ++ post ∧
      (∀ c ∈ pre, isWhitespace c = true) ∧ (∀ c ∈ post, isWhitespace c = true) := by
  refine ⟨s.takeWhile isWhitespace, (s.dropWhile isWhitespace).rtakeWhile isWhitespace,
    ?_, ?_, ?_⟩
  · rw [List.append_assoc, trim, List.rdropWhile_append_rtakeWhile,
      List.takeWhile_append_dropWhile]
  · intro c hc
    exact List.mem_takeWhile_imp hc
  · intro c hc
    exact List.mem_rtakeWhile_imp hc

theorem trim_append_left (pre s : Str) (hpre : ∀ c ∈ pre, isWhitespace c = true) :
    trim (pre ++ s) = trim s := by
  rw [trim, trim, List.dropWhile_append_of_pos hpre]

theorem trim_append_right (hpost : ∀ c ∈ post, isWhitespace c = true) :
    trim (s ++ post) = trim s := by
  induction s with
  | nil =>
    have hnil : post.dropWhile isWhitespace = [] := by
      rw [List.dropWhile_eq_nil_iff]
      exact hpost
    simp [trim, hnil]
  | cons c s ih =>
    cases hc : isWhitespace c with
    | true =>
      simpa only [trim, List.cons_append, List.dropWhile_cons, hc, if_true] using ih
    | false =>
      simp only [trim, List.cons_append, List.dropWhile_cons, hc, Bool.false_eq_true, if_false]
      rw [← List.cons_append, List.rdropWhile, List.rdropWhile, List.reverse_append,
        List.dropWhile_append_of_pos (fun d hd => hpost d (List.mem_reverse.mp hd))]

@[simp] theorem trim_trim (s : Str) : trim (trim s) = trim s := by
  obtain ⟨pre, post, hs, hpre, hpost⟩ := exists_trim s
  conv_rhs => rw [hs]
  rw [trim_append_right _ _ hpost, trim_append_left _ _ hpre]

theorem trim_ne_nil (c : Char) (hmem : c ∈ s) (hc : isWhitespace c = false) : trim s ≠ [] := by
  obtain ⟨pre, post, hs, hpre, hpost⟩ := exists_trim s
  intro hnil
  rw [hnil, List.append_nil] at hs
  rw [hs, List.mem_append] at hmem
  rcases hmem with hmem | hmem
  · simp [hpre c hmem] at hc
  · simp [hpost c hmem] at hc

theorem isWhitespace_toLower (c : Char) : isWhitespace c.toLower = isWhitespace c :=
  toLower_invariant isWhitespace (forall_mem_of_all _ _ (by decide)) c

theorem trim_map_toLower : trim (s.map Char.toLower) = (trim s).map Char.toLower := by
  have hcomp : isWhitespace ∘ Char.toLower = isWhitespace := funext isWhitespace_toLower
  rw [trim, trim, List.dropWhile_map, hcomp, List.rdropWhile, List.rdropWhile,
    ← List.map_reverse, List.dropWhile_map, hcomp, ← List.map_reverse]

theorem trim_eq_self_of_eqIgnoreAsciiCase (a b : Str) (hab : eqIgnoreAsciiCase a b = true)
    (ha : trim a = a) : trim b = b := by
  have hmap := (eqIgnoreAsciiCase_iff a b).mp hab
  have hlower : (trim b).map Char.toLower = b.map Char.toLower := by
    rw [← trim_map_toLower, ← hmap, trim_map_toLower, ha]
  obtain ⟨pre, post, hs, -, -⟩ := exists_trim b
  have hlen : (trim b).length = b.length := by
    simpa only [List.length_map] using congrArg List.length hlower
  have hsum := congrArg List.length hs
  simp only [List.length_append] at hsum
  have hpre : pre = [] := List.eq_nil_of_length_eq_zero (by omega)
  have hpost : post = [] := List.eq_nil_of_length_eq_zero (by omega)
  rw [hpre, hpost] at hs
  simpa using hs.symm

theorem beforeFirst_append_of_mem (hmem : sep ∈ s) :
    beforeFirst sep (s ++ post) = beforeFirst sep s := by
  induction s with
  | nil => cases hmem
  | cons c s ih =>
    by_cases hc : c = sep
    · simp [beforeFirst, hc]
    · have hrest : sep ∈ s := by
        rcases List.mem_cons.mp hmem with heq | hrest
        · exact absurd heq.symm hc
        · exact hrest
      simpa [beforeFirst, List.takeWhile_cons, hc] using ih hrest

theorem beforeFirst_append_of_not_mem (hmem : sep ∉ s) :
    beforeFirst sep (s ++ post) = s ++ beforeFirst sep post := by
  induction s with
  | nil => rfl
  | cons c s ih =>
    simp only [List.mem_cons, not_or] at hmem
    obtain ⟨hc, hrest⟩ := hmem
    have hc' : (c != sep) = true := by simpa using Ne.symm hc
    simpa [beforeFirst, List.takeWhile_cons, hc'] using ih hrest

/-- Trimming before the separator is looked for changes nothing once the part
before it is trimmed, unless the separator is itself white space. -/
theorem trim_beforeFirst_trim (hsep : isWhitespace sep = false) (s : Str) :
    trim (beforeFirst sep (trim s)) = trim (beforeFirst sep s) := by
  obtain ⟨pre, post, hs, hpre, hpost⟩ := exists_trim s
  have hpre' : sep ∉ pre := fun hmem => by simp [hpre sep hmem] at hsep
  have hpost' : sep ∉ post := fun hmem => by simp [hpost sep hmem] at hsep
  conv_rhs => rw [hs]
  rw [List.append_assoc, beforeFirst_append_of_not_mem _ _ _ hpre', trim_append_left _ _ hpre]
  by_cases hmem : sep ∈ trim s
  · rw [beforeFirst_append_of_mem _ _ _ hmem]
  · have hall : beforeFirst sep post = post := by
      simpa [beforeFirst] using beforeFirst_append_of_not_mem sep post [] hpost'
    have hcore : beforeFirst sep (trim s) = trim s := by
      simpa [beforeFirst] using beforeFirst_append_of_not_mem sep (trim s) [] hmem
    rw [beforeFirst_append_of_not_mem _ _ _ hmem, hall, hcore, trim_append_right _ _ hpost]

end ClantoDesk.Text
