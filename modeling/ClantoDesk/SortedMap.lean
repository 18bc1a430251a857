import Mathlib.Order.Lattice
import Mathlib.Tactic.Common

/-!
Maps as lists of entries in the order of their keys. Nothing in this module refers to a particular
program.
-/
namespace ClantoDesk

/-- The keys are in order, and none occurs twice. -/
structure SortedMap (K V : Type) [LinearOrder K] where
  entries : List (K × V)
  sorted : entries.Pairwise fun p q => p.1 < q.1

namespace SortedMap

variable {K V : Type} [LinearOrder K]

def empty : SortedMap K V := ⟨[], List.Pairwise.nil⟩

def insertEntry (key : K) (value : V) : List (K × V) → List (K × V)
  | [] => [(key, value)]
  | e :: rest =>
    if key < e.1 then (key, value) :: e :: rest
    else if key = e.1 then (key, value) :: rest
    else e :: insertEntry key value rest

variable (m : SortedMap K V) (key key' : K) (value : V) (entries : List (K × V))

theorem mem_insertEntry (e : K × V)
    (h : e ∈ insertEntry key value entries) : e = (key, value) ∨ e ∈ entries := by
  induction entries with
  | nil => exact Or.inl (List.mem_singleton.mp h)
  | cons first rest ih =>
    rw [insertEntry] at h
    split at h
    · exact List.mem_cons.mp h
    split at h
    · exact (List.mem_cons.mp h).imp_right fun hrest => List.mem_cons_of_mem _ hrest
    · rcases List.mem_cons.mp h with rfl | hrest
      · exact Or.inr (List.mem_cons_self ..)
      · exact (ih hrest).imp_right fun hold => List.mem_cons_of_mem _ hold

theorem sorted_insertEntry (h : entries.Pairwise fun p q => p.1 < q.1) :
    (insertEntry key value entries).Pairwise fun p q => p.1 < q.1 := by
  induction entries with
  | nil => exact List.pairwise_singleton _ _
  | cons first rest ih =>
    obtain ⟨hfirst, hrest⟩ := List.pairwise_cons.mp h
    rw [insertEntry]
    split
    · rename_i hless
      refine List.pairwise_cons.mpr ⟨fun e he => ?_, h⟩
      rcases List.mem_cons.mp he with rfl | he
      · exact hless
      · exact lt_trans hless (hfirst e he)
    split
    · rename_i heq
      exact List.pairwise_cons.mpr ⟨fun e he => heq ▸ hfirst e he, hrest⟩
    · rename_i hnot hne
      refine List.pairwise_cons.mpr ⟨fun e he => ?_, ih hrest⟩
      rcases mem_insertEntry key value rest e he with rfl | hold
      · exact lt_of_le_of_ne (not_lt.mp hnot) (Ne.symm hne)
      · exact hfirst e hold

def insert (m : SortedMap K V) (key : K) (value : V) : SortedMap K V :=
  ⟨insertEntry key value m.entries, sorted_insertEntry key value m.entries m.sorted⟩

def orInsert (m : SortedMap K V) (key : K) (value : V) : SortedMap K V :=
  if key ∈ m.entries.map fun e => e.1 then m else m.insert key value

def get (m : SortedMap K V) (key : K) : Option V :=
  (m.entries.find? fun e => decide (e.1 = key)).map fun e => e.2

theorem find_insertEntry_self :
    (insertEntry key value entries).find? (fun e => decide (e.1 = key)) = some (key, value) := by
  induction entries with
  | nil => exact List.find?_cons_of_pos (decide_eq_true rfl)
  | cons first rest ih =>
    rw [insertEntry]
    split
    · exact List.find?_cons_of_pos (decide_eq_true rfl)
    split
    · exact List.find?_cons_of_pos (decide_eq_true rfl)
    · rename_i hne
      rw [List.find?_cons_of_neg (by simpa using Ne.symm hne)]
      exact ih

theorem find_insertEntry_other
    (hne : key' ≠ key) : (insertEntry key value entries).find? (fun e => decide (e.1 = key')) =
      entries.find? fun e => decide (e.1 = key') := by
  have hnew : decide (key = key') = false := decide_eq_false (Ne.symm hne)
  induction entries with
  | nil => simp [insertEntry, hnew]
  | cons first rest ih =>
    rw [insertEntry]
    split
    · simp only [List.find?_cons, hnew]
    split
    · rename_i heq
      simp only [List.find?_cons, ← heq, hnew]
    · simp only [List.find?_cons, ih]

@[simp] theorem get_empty (key : K) : (empty : SortedMap K V).get key = none := by
  rfl

@[simp] theorem get_insert_self (m : SortedMap K V) (key : K) (value : V) :
    (m.insert key value).get key = some value := by
  simp only [get, insert, find_insertEntry_self, Option.map_some]

theorem get_insert_other (hne : key' ≠ key) : (m.insert key value).get key' = m.get key' := by
  simp only [get, insert, find_insertEntry_other key key' value m.entries hne]

theorem get_insert :
    (m.insert key value).get key' = if key' = key then some value else m.get key' := by
  split
  · rename_i heq
    rw [heq, get_insert_self]
  · rename_i hne
    exact get_insert_other m key key' value hne

theorem filter_entries :
    m.entries.filter (fun e => decide (e.1 = key)) =
      ((m.get key).map fun v => (key, v)).toList := by
  obtain ⟨entries, hsorted⟩ := m
  simp only [get]
  induction entries with
  | nil => rfl
  | cons e rest ih =>
    obtain ⟨hfirst, hrest⟩ := List.pairwise_cons.mp hsorted
    by_cases hkey : e.1 = key
    · have hgone : rest.filter (fun p => decide (p.1 = key)) = [] := by
        apply List.filter_eq_nil_iff.mpr
        intro p hp
        have hlater := hfirst p hp
        simpa using fun heq : p.1 = key => absurd hlater (by rw [heq, hkey]; exact lt_irrefl key)
      simp only [List.filter_cons, List.find?_cons, decide_eq_true hkey, if_true, hgone]
      simp [← hkey]
    · simp only [List.filter_cons, List.find?_cons, decide_eq_false hkey, Bool.false_eq_true,
        if_false]
      exact ih hrest

theorem mem_entries_iff : (key, value) ∈ m.entries ↔ m.get key = some value := by
  have hfilter := m.filter_entries key
  constructor
  · intro hmem
    have hkept : (key, value) ∈ m.entries.filter fun e => decide (e.1 = key) :=
      List.mem_filter.mpr ⟨hmem, decide_eq_true rfl⟩
    rw [hfilter] at hkept
    simpa using hkept
  · intro hget
    have hkept : (key, value) ∈ m.entries.filter fun e => decide (e.1 = key) := by
      rw [hfilter, hget]
      exact List.mem_singleton.mpr rfl
    exact (List.mem_filter.mp hkept).1

def erase (m : SortedMap K V) (key : K) : SortedMap K V :=
  ⟨m.entries.filter fun e => !decide (e.1 = key), m.sorted.filter _⟩

@[simp] theorem get_erase_self (m : SortedMap K V) (key : K) : (m.erase key).get key = none := by
  simp only [get, erase, Option.map_eq_none_iff, List.find?_eq_none]
  intro e he
  simpa using (List.mem_filter.mp he).2

theorem get_erase_other (hne : key' ≠ key) : (m.erase key).get key' = m.get key' := by
  simp only [get, erase, List.find?_filter]
  congr 2
  funext e
  by_cases hkey : e.1 = key'
  · simp [hkey, hne]
  · simp [hkey]

theorem get_erase : (m.erase key).get key' = if key' = key then none else m.get key' := by
  split
  · rename_i heq
    rw [heq, get_erase_self]
  · rename_i hne
    exact get_erase_other m key key' hne

def retain (m : SortedMap K V) (keep : V → Bool) : SortedMap K V :=
  ⟨m.entries.filter fun e => keep e.2, m.sorted.filter _⟩

theorem get_retain (keep : V → Bool) (key : K) :
    (m.retain keep).get key = (m.get key).filter keep := by
  ext value
  rw [← mem_entries_iff, Option.filter_eq_some_iff, ← mem_entries_iff]
  exact List.mem_filter

theorem length_retain_le (keep : V → Bool) : (m.retain keep).entries.length ≤ m.entries.length :=
  List.length_filter_le _ _

theorem length_erase_le : (m.erase key).entries.length ≤ m.entries.length :=
  List.length_filter_le _ _

theorem length_insertEntry_le : (insertEntry key value entries).length ≤ entries.length + 1 := by
  induction entries with
  | nil => exact le_rfl
  | cons e rest ih =>
    rw [insertEntry]
    split
    · exact le_rfl
    split
    · exact Nat.le_succ _
    · exact Nat.succ_le_succ ih

theorem length_insert_le : (m.insert key value).entries.length ≤ m.entries.length + 1 :=
  length_insertEntry_le key value m.entries

theorem length_insertEntry_of_mem (old : V) (entries : List (K × V))
    (hsorted : entries.Pairwise fun p q => p.1 < q.1) (hmem : (key, old) ∈ entries) :
    (insertEntry key value entries).length = entries.length := by
  induction entries with
  | nil => cases hmem
  | cons e rest ih =>
    obtain ⟨hfirst, hrest⟩ := List.pairwise_cons.mp hsorted
    rw [insertEntry]
    rcases List.mem_cons.mp hmem with rfl | hlater
    · rw [if_neg (lt_irrefl _), if_pos rfl]
      rfl
    · have hless := hfirst _ hlater
      rw [if_neg (not_lt.mpr hless.le), if_neg hless.ne']
      exact congrArg (· + 1) (ih hrest hlater)

theorem length_insert_of_get (old : V)
    (hget : m.get key = some old) : (m.insert key value).entries.length = m.entries.length :=
  length_insertEntry_of_mem key value old m.entries m.sorted
    ((mem_entries_iff m key old).mpr hget)

def mapValues (m : SortedMap K V) (f : V → V) : SortedMap K V :=
  ⟨m.entries.map fun e => (e.1, f e.2), List.pairwise_map.mpr m.sorted⟩

@[simp] theorem get_mapValues (m : SortedMap K V) (f : V → V) (key : K) :
    (m.mapValues f).get key = (m.get key).map f := by
  simp only [get, mapValues, List.find?_map, Option.map_map]
  rfl

theorem keys_insert (P : K → Prop) (m : SortedMap K V) (key : K) (value : V)
    (h : ∀ e ∈ m.entries, P e.1) (hkey : P key) : ∀ e ∈ (m.insert key value).entries, P e.1 := by
  intro e he
  rcases mem_insertEntry key value m.entries e he with rfl | hold
  · exact hkey
  · exact h e hold

theorem keys_orInsert (P : K → Prop) (m : SortedMap K V) (key : K) (value : V)
    (h : ∀ e ∈ m.entries, P e.1) (hkey : P key) : ∀ e ∈ (m.orInsert key value).entries, P e.1 := by
  unfold orInsert
  split
  · exact h
  · exact keys_insert P m key value h hkey

end SortedMap

end ClantoDesk
