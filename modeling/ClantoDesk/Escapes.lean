import Mathlib.Data.List.Basic
import Mathlib.Tactic.Common

/-!
Texts whose separators are escaped. A text is closed when every escape character in it is followed
by what it escapes and no separator is left bare. Closed texts put together with bare
separators are cut apart again, and an escaping that a table undoes is undone character by
character. Nothing in this module refers to a particular program.
-/
namespace ClantoDesk.Escapes

variable {α : Type} [DecidableEq α]

inductive Closed (esc sep : α) : List α → Prop
  | nil : Closed esc sep []
  | plain (c : α) (s : List α) : c ≠ esc → c ≠ sep → Closed esc sep s → Closed esc sep (c :: s)
  | escaped (c : α) (s : List α) : Closed esc sep s → Closed esc sep (esc :: c :: s)

omit [DecidableEq α] in
theorem Closed.append {esc sep : α} {s t : List α} (hs : Closed esc sep s) (ht : Closed esc sep t) :
    Closed esc sep (s ++ t) := by
  induction hs with
  | nil => exact ht
  | plain c s hesc hsep _ ih => exact .plain c _ hesc hsep ih
  | escaped c s _ ih => exact .escaped c _ ih

variable (esc sep : α) (s : List α)

omit [DecidableEq α] in
theorem closed_of_not_mem (hesc : esc ∉ s) (hsep : sep ∉ s) : Closed esc sep s := by
  induction s with
  | nil => exact .nil
  | cons c s ih =>
    rw [List.mem_cons, not_or] at hesc hsep
    exact .plain c s (Ne.symm hesc.1) (Ne.symm hsep.1) (ih hesc.2 hsep.2)

omit [DecidableEq α] in
theorem closed_flatMap (f : α → List α) (s : List α)
    (hf : ∀ c, Closed esc sep (f c)) : Closed esc sep (s.flatMap f) := by
  induction s with
  | nil => exact .nil
  | cons c s ih =>
    rw [List.flatMap_cons]
    exact (hf c).append ih

def cut (esc sep : α) : List α → Option (List α × List α)
  | [] => none
  | [c] => if c ≠ esc ∧ c = sep then some ([], []) else none
  | c :: d :: s =>
    if c = esc then (cut esc sep s).map fun p => (c :: d :: p.1, p.2)
    else if c = sep then some ([], d :: s)
    else (cut esc sep (d :: s)).map fun p => (c :: p.1, p.2)

theorem cut_cons (c : α) (s : List α) (hesc : c ≠ esc) :
    cut esc sep (c :: s) =
      if c = sep then some ([], s) else (cut esc sep s).map fun p => (c :: p.1, p.2) := by
  cases s with
  | nil => simp [cut, hesc]
  | cons d s => rw [cut, if_neg hesc]

theorem cut_closed (h : Closed esc sep s) : cut esc sep s = none := by
  induction h with
  | nil => rfl
  | plain c s hesc hsep _ ih => rw [cut_cons esc sep c s hesc, if_neg hsep, ih, Option.map_none]
  | escaped c s _ ih => rw [cut, if_pos rfl, ih, Option.map_none]

theorem cut_append (hne : sep ≠ esc) (s rest : List α) (h : Closed esc sep s) :
    cut esc sep (s ++ sep :: rest) = some (s, rest) := by
  induction h with
  | nil => rw [List.nil_append, cut_cons esc sep sep rest hne, if_pos rfl]
  | plain c s hesc hsep _ ih =>
    rw [List.cons_append, cut_cons esc sep c _ hesc, if_neg hsep, ih, Option.map_some]
  | escaped c s _ ih =>
    rw [List.cons_append, List.cons_append, cut, if_pos rfl, ih, Option.map_some]

/-- The text cut at its first `n` bare separators. -/
def fields (esc sep : α) : ℕ → List α → List (List α)
  | 0, s => [s]
  | n + 1, s =>
    match cut esc sep s with
    | some (first, rest) => first :: fields esc sep n rest
    | none => [s]

theorem fields_closed (n : ℕ) (s : List α) (h : Closed esc sep s) : fields esc sep n s = [s] := by
  cases n with
  | zero => rfl
  | succ n => rw [fields, cut_closed esc sep s h]

theorem fields_append (hne : sep ≠ esc) (n : ℕ) (s rest : List α) (h : Closed esc sep s) :
    fields esc sep (n + 1) (s ++ sep :: rest) = s :: fields esc sep n rest := by
  rw [fields, cut_append esc sep hne s rest h]

def splitLast (sep : α) : List α → Option (List α × List α)
  | [] => none
  | c :: s =>
    match splitLast sep s with
    | some (front, back) => some (c :: front, back)
    | none => if c = sep then some ([], s) else none

theorem splitLast_none (h : sep ∉ s) : splitLast sep s = none := by
  induction s with
  | nil => rfl
  | cons c s ih =>
    rw [List.mem_cons, not_or] at h
    rw [splitLast, ih h.2]
    exact if_neg (Ne.symm h.1)

theorem splitLast_append (front back : List α) (h : sep ∉ back) :
    splitLast sep (front ++ sep :: back) = some (front, back) := by
  induction front with
  | nil =>
    rw [List.nil_append, splitLast, splitLast_none sep back h]
    exact if_pos rfl
  | cons c front ih => rw [List.cons_append, splitLast, ih]

def unescape (esc : α) (table : α → α) : List α → List α
  | [] => []
  | [c] => [c]
  | c :: d :: s =>
    if c = esc then table d :: unescape esc table s else c :: unescape esc table (d :: s)

theorem unescape_cons (table : α → α) (c : α) (s : List α) (h : c ≠ esc) :
    unescape esc table (c :: s) = c :: unescape esc table s := by
  cases s with
  | nil => rfl
  | cons d s => rw [unescape, if_neg h]

/-- Every character is left alone or escaped as the table says. -/
theorem unescape_flatMap (table : α → α) (f : α → List α)
    (hf : ∀ c, (f c = [c] ∧ c ≠ esc) ∨ ∃ d, f c = [esc, d] ∧ table d = c) (s : List α) :
    unescape esc table (s.flatMap f) = s := by
  induction s with
  | nil => rfl
  | cons c s ih =>
    rw [List.flatMap_cons]
    rcases hf c with ⟨hc, hne⟩ | ⟨d, hc, htable⟩
    · rw [hc, List.singleton_append, unescape_cons esc table c _ hne, ih]
    · rw [hc, List.cons_append, List.singleton_append, unescape, if_pos rfl, htable, ih]

end ClantoDesk.Escapes
