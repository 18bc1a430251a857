import Mathlib.Data.List.Basic
import Mathlib.Data.List.TakeWhile

/-!
Texts made of lines, each followed by a separator. Lines without the separator are determined
by the text, and the text of any lines is also the text of the pieces that its
separators cut it into. A key and a value are joined by a character that no key has. Nothing
in this module refers to a particular program.
-/
namespace ClantoDesk.Lines

variable {α : Type*} [DecidableEq α] (sep : α)

def unlines (lines : List (List α)) : List α := lines.flatMap fun l => l ++ [sep]

@[simp] theorem unlines_nil : unlines sep [] = [] := rfl

@[simp] theorem unlines_cons (l : List α) (lines : List (List α)) :
    unlines sep (l :: lines) = l ++ sep :: unlines sep lines := by
  simp [unlines]

variable (lines : List (List α))

theorem unlines_append (a b : List (List α)) :
    unlines sep (a ++ b) = unlines sep a ++ unlines sep b := by
  simp [unlines]

def cut (lines : List (List α)) : List (List α) := lines.flatMap fun l => l.splitOn sep

@[simp] theorem cut_cons (l : List α) (lines : List (List α)) :
    cut sep (l :: lines) = l.splitOn sep ++ cut sep lines := rfl

/-- Splitting the text of a list gives its lines back, and an empty rest. -/
theorem splitOn_unlines (h : ∀ l ∈ lines, sep ∉ l) :
    (unlines sep lines).splitOn sep = lines ++ [[]] := by
  induction lines with
  | nil => simp [List.splitOn_eq_singleton]
  | cons l lines ih =>
    rw [unlines_cons, List.splitOn_append_cons_self_of_not_mem (h l (by simp)),
      ih fun m hm => h m (List.mem_cons_of_mem l hm), List.cons_append]

theorem unlines_injective (a b : List (List α)) (ha : ∀ l ∈ a, sep ∉ l) (hb : ∀ l ∈ b, sep ∉ l)
    (h : unlines sep a = unlines sep b) : a = b := by
  have hsplit := congrArg (List.splitOn sep) h
  rw [splitOn_unlines sep a ha, splitOn_unlines sep b hb] at hsplit
  exact List.append_cancel_right hsplit

theorem unlines_splitOn (l : List α) : unlines sep (l.splitOn sep) = l ++ [sep] := by
  induction l with
  | nil => simp [List.splitOn_eq_singleton]
  | cons c l ih =>
    rw [List.splitOn_cons_eq_if_modifyHead]
    cases hl : l.splitOn sep with
    | nil => exact absurd hl (List.splitOn_ne_nil sep l)
    | cons first rest =>
      rw [hl, unlines_cons] at ih
      by_cases hc : c = sep
      · simp [hc, ih]
      · simp [hc, ih]

theorem unlines_cut : unlines sep (cut sep lines) = unlines sep lines := by
  induction lines with
  | nil => rfl
  | cons l lines ih =>
    rw [cut_cons, unlines_append, unlines_splitOn, ih, unlines_cons, List.append_assoc,
      List.singleton_append]

theorem not_mem_of_mem_splitOn (l piece : List α) (h : piece ∈ l.splitOn sep) : sep ∉ piece := by
  induction l generalizing piece with
  | nil =>
    rw [List.splitOn_eq_singleton (by simp)] at h
    simp [List.mem_singleton.mp h]
  | cons c l ih =>
    rw [List.splitOn_cons_eq_if_modifyHead] at h
    cases hl : l.splitOn sep with
    | nil => exact absurd hl (List.splitOn_ne_nil sep l)
    | cons first rest =>
      rw [hl] at h ih
      by_cases hc : c = sep
      · simp only [hc, beq_self_eq_true, if_true, List.mem_cons] at h
        rcases h with rfl | hin
        · simp
        · exact ih piece (List.mem_cons.mpr hin)
      · simp only [beq_iff_eq, hc, if_false, List.modifyHead_cons, List.mem_cons] at h
        rcases h with rfl | hin
        · have hfirst := ih first (by simp)
          simp only [List.mem_cons, not_or]
          exact ⟨fun heq => hc heq.symm, hfirst⟩
        · exact ih piece (List.mem_cons_of_mem _ hin)

theorem not_mem_of_mem_cut (piece : List α) (h : piece ∈ cut sep lines) : sep ∉ piece := by
  obtain ⟨l, -, hpiece⟩ := List.mem_flatMap.mp h
  exact not_mem_of_mem_splitOn sep l piece hpiece

theorem cut_eq_self (h : ∀ l ∈ lines, sep ∉ l) : cut sep lines = lines := by
  apply unlines_injective sep _ _ (fun l hl => not_mem_of_mem_cut sep lines l hl) h
  exact unlines_cut sep lines

/-- Lines whose text is that of lines without the separator are cut into these. -/
theorem cut_eq_of_unlines_eq (a b : List (List α)) (hb : ∀ l ∈ b, sep ∉ l)
    (h : unlines sep a = unlines sep b) : cut sep a = b := by
  apply unlines_injective sep _ _ (fun l hl => not_mem_of_mem_cut sep a l hl) hb
  rw [unlines_cut, h]

/-- The parts before and after the first `mark`. -/
def splitOnce (mark : α) (l : List α) : Option (List α × List α) :=
  match l.dropWhile (fun c => decide (c ≠ mark)) with
  | [] => none
  | _ :: value => some (l.takeWhile (fun c => decide (c ≠ mark)), value)

variable (mark : α)

theorem splitOnce_append (key value : List α) (h : mark ∉ key) :
    splitOnce mark (key ++ mark :: value) = some (key, value) := by
  have hkey : ∀ c ∈ key, decide (c ≠ mark) = true := by
    intro c hc
    simpa using ne_of_mem_of_not_mem hc h
  rw [splitOnce, List.dropWhile_append_of_pos hkey, List.takeWhile_append_of_pos hkey]
  simp

theorem append_mark_inj (a b x y : List α) (ha : mark ∉ a) (hb : mark ∉ b)
    (h : a ++ mark :: x = b ++ mark :: y) : a = b ∧ x = y := by
  have hcut := splitOnce_append mark a x ha
  rw [h, splitOnce_append mark b y hb] at hcut
  obtain ⟨hkey, hvalue⟩ := Prod.mk.inj (Option.some.inj hcut)
  exact ⟨hkey.symm, hvalue.symm⟩

theorem append_mark_inj_last (x y a b : List α) (ha : mark ∉ a) (hb : mark ∉ b)
    (h : x ++ mark :: a = y ++ mark :: b) : x = y ∧ a = b := by
  have hreverse := congrArg List.reverse h
  rw [List.reverse_append, List.reverse_cons, List.reverse_append, List.reverse_cons,
    List.append_assoc, List.append_assoc, List.singleton_append, List.singleton_append] at hreverse
  obtain ⟨hback, hfront⟩ := append_mark_inj mark a.reverse b.reverse x.reverse y.reverse
    (fun hmem => ha (List.mem_reverse.mp hmem)) (fun hmem => hb (List.mem_reverse.mp hmem)) hreverse
  exact ⟨List.reverse_injective hfront, List.reverse_injective hback⟩

theorem eq_append_of_splitOnce (l key value : List α) (h : splitOnce mark l = some (key, value)) :
    l = key ++ mark :: value ∧ mark ∉ key := by
  rw [splitOnce] at h
  cases hdrop : l.dropWhile (fun c => decide (c ≠ mark)) with
  | nil =>
    rw [hdrop] at h
    cases h
  | cons c rest =>
    simp only [hdrop, Option.some.injEq, Prod.mk.injEq] at h
    obtain ⟨rfl, rfl⟩ := h
    have hc : c = mark := by
      have hhead := List.head?_dropWhile_not (fun c => decide (c ≠ mark)) l
      rw [hdrop] at hhead
      simpa using hhead
    have hjoin := List.takeWhile_append_dropWhile (p := fun c => decide (c ≠ mark)) (l := l)
    refine ⟨?_, fun hmem => ?_⟩
    · rw [hdrop, hc] at hjoin
      exact hjoin.symm
    · simpa using List.mem_takeWhile_imp hmem

theorem splitOnce_eq_none_iff (l : List α) : splitOnce mark l = none ↔ mark ∉ l := by
  constructor
  · intro h hmem
    obtain ⟨a, b, heq, hnot⟩ := List.eq_append_cons_of_mem hmem
    rw [heq, splitOnce_append mark a b hnot] at h
    cases h
  · intro h
    cases hcut : splitOnce mark l with
    | none => rfl
    | some parts =>
      have heq := (eq_append_of_splitOnce mark l parts.1 parts.2 hcut).1
      exact absurd (by rw [heq]; simp) h

end ClantoDesk.Lines
