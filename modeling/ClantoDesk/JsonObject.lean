import Mathlib.Data.List.Sort
import Mathlib.Data.String.Basic

/-!
JSON objects as sorted lists of fields, with the lemmas about reading, replacing and
removing a field. A field and the rest of an object determine it. Nothing in this module refers to a
particular program.
-/
namespace ClantoDesk.JsonObject

inductive Field
  | number (n : UInt64)
  | text (s : String)
  | other (json : String)
  deriving DecidableEq

abbrev Fields := List (String × Field)

def fieldOf (key : String) : Fields → Option Field
  | [] => none
  | (k, v) :: rest => if k = key then some v else fieldOf key rest

/-- `BTreeMap::insert`. -/
def putField (key : String) (value : Field) : Fields → Fields
  | [] => [(key, value)]
  | (k, v) :: rest =>
    if key < k then (key, value) :: (k, v) :: rest
    else if key = k then (key, value) :: rest
    else (k, v) :: putField key value rest

def dropField (key : String) (fields : Fields) : Fields :=
  fields.filter fun p => decide (p.1 ≠ key)

def Sorted (fields : Fields) : Prop := fields.Pairwise fun p q => p.1 < q.1

/-- A JSON object: its keys are in order, and none occurs twice. -/
structure Object where
  fields : Fields
  sorted : Sorted fields
  deriving DecidableEq

attribute [local simp] fieldOf putField

variable (o : Object) (key key' : String) (value : Field) (fields : Fields)

theorem mem_putField (p : String × Field)
    (h : p ∈ putField key value fields) : p = (key, value) ∨ p ∈ fields := by
  induction fields with
  | nil => exact Or.inl (List.mem_singleton.mp h)
  | cons q rest ih =>
    simp only [putField] at h
    split at h
    · exact List.mem_cons.mp h
    · split at h
      · rcases List.mem_cons.mp h with rfl | hrest
        · exact Or.inl rfl
        · exact Or.inr (List.mem_cons_of_mem _ hrest)
      · rcases List.mem_cons.mp h with rfl | hrest
        · exact Or.inr (List.mem_cons_self ..)
        · rcases ih hrest with rfl | hold
          · exact Or.inl rfl
          · exact Or.inr (List.mem_cons_of_mem _ hold)

theorem sorted_putField (h : Sorted fields) : Sorted (putField key value fields) := by
  induction fields with
  | nil => exact List.pairwise_singleton _ _
  | cons q rest ih =>
    obtain ⟨hfirst, hrest⟩ := List.pairwise_cons.mp h
    simp only [putField]
    split
    · rename_i hless
      refine List.pairwise_cons.mpr ⟨?_, h⟩
      intro p hp
      rcases List.mem_cons.mp hp with rfl | hp
      · exact hless
      · exact lt_trans hless (hfirst p hp)
    · rename_i hnot
      split
      · rename_i heq
        refine List.pairwise_cons.mpr ⟨?_, hrest⟩
        intro p hp
        exact heq ▸ hfirst p hp
      · rename_i hne
        refine List.pairwise_cons.mpr ⟨?_, ih hrest⟩
        intro p hp
        rcases mem_putField key value rest p hp with rfl | hold
        · exact lt_of_le_of_ne (not_lt.mp hnot) (Ne.symm hne)
        · exact hfirst p hold

theorem fieldOf_putField_self : fieldOf key (putField key value fields) = some value := by
  induction fields with
  | nil => exact if_pos rfl
  | cons q rest ih =>
    simp only [putField]
    split
    · exact if_pos rfl
    · split
      · exact if_pos rfl
      · rename_i hne
        rw [fieldOf, if_neg (Ne.symm hne)]
        exact ih

theorem fieldOf_putField_other
    (hne : key' ≠ key) : fieldOf key' (putField key value fields) = fieldOf key' fields := by
  induction fields with
  | nil => exact if_neg (Ne.symm hne)
  | cons q rest ih =>
    simp only [putField]
    split
    · exact if_neg (Ne.symm hne)
    · split
      · rename_i heq
        simp only [fieldOf, ← heq, if_neg (Ne.symm hne)]
      · simp only [fieldOf, ih]

theorem mem_of_fieldOf (h : fieldOf key fields = some value) : (key, value) ∈ fields := by
  induction fields with
  | nil => cases h
  | cons q rest ih =>
    rw [fieldOf] at h
    split at h
    · rename_i hkey
      obtain rfl := Option.some.inj h
      exact hkey ▸ List.mem_cons_self ..
    · exact List.mem_cons_of_mem _ (ih h)

theorem dropField_putField : dropField key (putField key value fields) = dropField key fields := by
  induction fields with
  | nil => simp [dropField, putField]
  | cons q rest ih =>
    simp only [putField]
    split
    · simp [dropField]
    · split
      · rename_i heq
        simp [dropField, ← heq]
      · rename_i hne
        have hne' : q.1 ≠ key := fun heq => hne heq.symm
        simpa [dropField, hne'] using ih

theorem fieldOf_dropField_other (hne : key' ≠ key) :
    fieldOf key' (dropField key fields) = fieldOf key' fields := by
  induction fields with
  | nil => rfl
  | cons q rest ih =>
    rw [dropField] at ih ⊢
    by_cases hq : q.1 = key
    · have hother : q.1 ≠ key' := fun h => hne (h.symm.trans hq)
      simp only [List.filter_cons, hq, ne_eq, not_true_eq_false, decide_false, Bool.false_eq_true,
        if_false, fieldOf, if_neg (hq ▸ hother)]
      exact ih
    · simp only [List.filter_cons, ne_eq, hq, not_false_eq_true, decide_true, if_true, fieldOf]
      rw [ih]

theorem putField_dropField (h : Sorted fields) (hget : fieldOf key fields = some value) :
    putField key value (dropField key fields) = fields := by
  induction fields with
  | nil => cases hget
  | cons q rest ih =>
    obtain ⟨k, v⟩ := q
    obtain ⟨hfirst, hrest⟩ := List.pairwise_cons.mp h
    rw [fieldOf] at hget
    by_cases hk : k = key
    · subst hk
      rw [if_pos rfl] at hget
      obtain rfl := Option.some.inj hget
      have hkeep : dropField k ((k, v) :: rest) = rest := by
        rw [dropField, List.filter_cons_of_neg (by simp), List.filter_eq_self]
        intro p hp
        exact decide_eq_true (hfirst p hp).ne'
      rw [hkeep]
      cases rest with
      | nil => rfl
      | cons p rest => exact if_pos (hfirst p (List.mem_cons_self ..))
    · rw [if_neg hk] at hget
      have hless : k < key := hfirst _ (mem_of_fieldOf key value rest hget)
      have hkeep : dropField key ((k, v) :: rest) = (k, v) :: dropField key rest :=
        List.filter_cons_of_pos (decide_eq_true hk)
      rw [hkeep]
      simp only [putField, if_neg (not_lt.mpr hless.le), if_neg (Ne.symm hk)]
      rw [ih hrest hget]

namespace Object

def get (o : Object) (key : String) : Option Field := fieldOf key o.fields

def insert (o : Object) (key : String) (value : Field) : Object :=
  ⟨putField key value o.fields, sorted_putField key value o.fields o.sorted⟩

def remove (o : Object) (key : String) : Object := ⟨dropField key o.fields, o.sorted.filter _⟩

theorem eq_of_fields {o o' : Object} (h : o.fields = o'.fields) : o = o' := by
  cases o
  cases o'
  cases h
  rfl

@[simp] theorem get_insert_self (o : Object) (key : String) (value : Field) :
    (o.insert key value).get key = some value :=
  fieldOf_putField_self key value o.fields

theorem get_insert_other (hne : key' ≠ key) : (o.insert key value).get key' = o.get key' :=
  fieldOf_putField_other key key' value o.fields hne

theorem get_remove_other (hne : key' ≠ key) : (o.remove key).get key' = o.get key' :=
  fieldOf_dropField_other key key' o.fields hne

@[simp] theorem remove_insert (o : Object) (key : String) (value : Field) :
    (o.insert key value).remove key = o.remove key :=
  eq_of_fields (dropField_putField key value o.fields)

theorem eq_of_remove (o' : Object) (key : String) (value : Field)
    (hrest : o.remove key = o'.remove key) (hget : o.get key = some value)
    (hget' : o'.get key = some value) : o = o' := by
  apply eq_of_fields
  rw [← putField_dropField key value o.fields o.sorted hget,
    ← putField_dropField key value o'.fields o'.sorted hget']
  exact congrArg (putField key value) (congrArg Object.fields hrest)

end Object

end ClantoDesk.JsonObject
