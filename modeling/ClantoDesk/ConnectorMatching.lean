import ClantoDesk.PartialMatching
import ClantoDesk.WaylandLayout
import Mathlib.Algebra.Order.Ring.Int
import Mathlib.Data.List.Nodup
import Mathlib.Data.List.Perm.Basic

/-!
Which output of the compositor belongs to which DRM connector, src/server/drm_capturer.rs: first the
connectors that have an output's name, up to a letter that the compositor leaves out, then those
that are the only one of their size with an output that is the only one of that size, and last, by a
guess, the remaining ones in the order of the layout.
-/
namespace ClantoDesk.ConnectorMatching

open WaylandLayout PartialMatching

/-- What is used of a display that the DRM service reports. -/
structure DrmDisplayInfo where
  name : String
  x : ℤ
  y : ℤ
  width : UInt32
  height : UInt32
  active : Bool
  device : String
  deriving DecidableEq

/-- `as i32`. -/
def asI32 (n : UInt32) : ℤ := (n.toNat : ℤ).bmod 4294967296

/-- `HDMI-A-1` is `HDMI-1`; a digit in the middle stays. -/
def normalizeConnector (name : String) : String :=
  match name.toList.splitOn '-' with
  | [first, [c], last] => if c.isAlpha then String.ofList (first ++ '-' :: last) else name
  | _ => name

def sameName (d : DrmDisplayInfo) (w : WaylandDisplayInfo) : Bool :=
  decide (normalizeConnector w.name = normalizeConnector d.name)

def sameSize (d : DrmDisplayInfo) (w : WaylandDisplayInfo) : Bool :=
  decide (w.width = asI32 d.width) && decide (w.height = asI32 d.height)

abbrev Table := PartialMatching ℕ ℕ

def nameStep (wl : List WaylandDisplayInfo) (t : Table) (e : DrmDisplayInfo × ℕ) : Table :=
  match wl.zipIdx.find? fun f => !t.taken f.2 && sameName e.1 f.1 with
  | some (_, j) => t.take e.2 j
  | none => t

def freeSame (wl : List WaylandDisplayInfo) (t : Table) (d : DrmDisplayInfo) : List ℕ :=
  (wl.zipIdx.filter fun f => !t.taken f.2 && sameSize d f.1).map fun f => f.2

def unmatchedSame (drm : List DrmDisplayInfo) (t : Table) (d : DrmDisplayInfo) : ℕ :=
  (drm.zipIdx.filter fun o =>
    (t.matched o.2).isNone && decide (o.1.width = d.width) && decide (o.1.height = d.height)).length

/-- The connector at an index takes the only free output of its size, if no other connector of that
size is unmatched. -/
def resolutionStep (drm : List DrmDisplayInfo) (wl : List WaylandDisplayInfo) (t : Table)
    (e : DrmDisplayInfo × ℕ) : Table :=
  if (t.matched e.2).isSome then t
  else
    match freeSame wl t e.1 with
    | [j] => if unmatchedSame drm t e.1 = 1 then t.take e.2 j else t
    | _ => t

def nameTable (drm : List DrmDisplayInfo) (wl : List WaylandDisplayInfo) : Table :=
  drm.zipIdx.foldl (nameStep wl) .empty

def identityTable (drm : List DrmDisplayInfo) (wl : List WaylandDisplayInfo) : Table :=
  drm.zipIdx.foldl (resolutionStep drm wl) (nameTable drm wl)

def identityMatches (drm : List DrmDisplayInfo) (wl : List WaylandDisplayInfo) :
    List (Option ℕ) :=
  (List.range drm.length).map (identityTable drm wl).matched

/-- The connector at an index takes the first free output of its size, or the first free one. -/
def fallbackStep (wl : List WaylandDisplayInfo) (t : Table) (e : DrmDisplayInfo × ℕ) : Table :=
  if (t.matched e.2).isSome then t
  else
    match ((wl.zipIdx.find? fun f => !t.taken f.2 && sameSize e.1 f.1).map fun f => f.2).or
        ((List.range wl.length).find? fun j => !t.taken j) with
    | some j => t.take e.2 j
    | none => t

def startTable (drm : List DrmDisplayInfo) (wl : List WaylandDisplayInfo) : Table :=
  { matched := fun i => (identityMatches drm wl)[i]?.join
    taken := fun j => decide (some j ∈ identityMatches drm wl) }

def assignTable (drm : List DrmDisplayInfo) (wl : List WaylandDisplayInfo) : Table :=
  drm.zipIdx.foldl (fallbackStep wl) (startTable drm wl)

def assignWaylandOutputs (drm : List DrmDisplayInfo) (wl : List WaylandDisplayInfo) :
    List (Option ℕ) :=
  (List.range drm.length).map (assignTable drm wl).matched

/-! ### The table grows -/

/-- What every pass keeps: the table is a matching of connectors and outputs. -/
structure Sound (drm : List DrmDisplayInfo) (wl : List WaylandDisplayInfo) (t : Table) : Prop where
  valid : Valid t
  inside : ∀ i j, t.matched i = some j → i < drm.length ∧ j < wl.length

variable (drm : List DrmDisplayInfo) (wl : List WaylandDisplayInfo) (i : ℕ) (t u : Table)
  (d : DrmDisplayInfo) (w : WaylandDisplayInfo) (e : DrmDisplayInfo × ℕ) (j : ℕ)

theorem sound_empty : Sound drm wl .empty :=
  ⟨valid_empty, fun _ _ h => by cases h⟩

theorem Sound.take (h : Sound drm wl t) (i j : ℕ) (hi : i < drm.length) (hj : j < wl.length)
    (hunmatched : t.matched i = none) (hfree : ¬ t.taken j = true) : Sound drm wl (t.take i j) := by
  refine ⟨h.valid.take t i j hunmatched hfree, ?_⟩
  intro a b hab
  rw [matched_take] at hab
  split at hab
  next heq => exact ⟨heq ▸ hi, Option.some.inj hab ▸ hj⟩
  next => exact h.inside a b hab

theorem mem_freeSame :
    j ∈ freeSame wl t d ↔
      ∃ w, wl[j]? = some w ∧ ¬ t.taken j = true ∧ sameSize d w = true := by
  simp only [freeSame, List.mem_map, List.mem_filter, Bool.and_eq_true, Bool.not_eq_true',
    List.mem_zipIdx_iff_getElem?]
  constructor
  · rintro ⟨⟨w, k⟩, ⟨hw, hfree, hsize⟩, rfl⟩
    exact ⟨w, hw, by simp [hfree], hsize⟩
  · rintro ⟨w, hw, hfree, hsize⟩
    exact ⟨(w, j), ⟨hw, by simpa using hfree, hsize⟩, rfl⟩

theorem lt_of_getElem? {α : Type} (xs : List α) (i : ℕ) (x : α) (h : xs[i]? = some x) :
    i < xs.length := by
  obtain ⟨hi, -⟩ := List.getElem?_eq_some_iff.mp h
  exact hi

theorem free_of_find (p : WaylandDisplayInfo → Bool) (w : WaylandDisplayInfo) (j : ℕ)
    (hfound : (wl.zipIdx.find? fun f => !t.taken f.2 && p f.1) = some (w, j)) :
    wl[j]? = some w ∧ ¬ t.taken j = true ∧ p w = true := by
  have hpred := List.find?_some hfound
  rw [Bool.and_eq_true, Bool.not_eq_true'] at hpred
  exact ⟨List.mem_zipIdx_iff_getElem?.mp (List.mem_of_find?_eq_some hfound), by simp [hpred.1],
    hpred.2⟩

inductive Adds (drm : List DrmDisplayInfo) (wl : List WaylandDisplayInfo) (i : ℕ) (t : Table) :
    Table → Prop
  | same : Adds drm wl i t t
  | pair (j : ℕ) (hunmatched : t.matched i = none) (hj : j < wl.length)
    (hfree : ¬ t.taken j = true) : Adds drm wl i t (t.take i j)

theorem adds_nameStep (hunmatched : t.matched e.2 = none) :
    Adds drm wl e.2 t (nameStep wl t e) := by
  unfold nameStep
  split
  next w j hfound =>
    obtain ⟨hw, hfree, -⟩ := free_of_find wl t (sameName e.1) w j hfound
    exact .pair j hunmatched (lt_of_getElem? wl j w hw) hfree
  next => exact .same

theorem adds_resolutionStep : Adds drm wl e.2 t (resolutionStep drm wl t e) := by
  unfold resolutionStep
  split
  · exact .same
  next hmatched =>
  have hunmatched : t.matched e.2 = none := by simpa using hmatched
  split
  next j hfree =>
    split
    · obtain ⟨w, hw, hj, -⟩ := (mem_freeSame wl t e.1 j).mp (by rw [hfree]; simp)
      exact .pair j hunmatched (lt_of_getElem? wl j w hw) hj
    · exact .same
  next => exact .same

theorem adds_fallbackStep : Adds drm wl e.2 t (fallbackStep wl t e) := by
  unfold fallbackStep
  split
  · exact .same
  next hmatched =>
  have hunmatched : t.matched e.2 = none := by simpa using hmatched
  split
  next j hfound =>
    rcases Option.or_eq_some_iff.mp hfound with hsize | ⟨-, hfirst⟩
    · obtain ⟨⟨w, k⟩, hk, rfl⟩ := Option.map_eq_some_iff.mp hsize
      obtain ⟨hw, hfree, -⟩ := free_of_find wl t (sameSize e.1) w k hk
      exact .pair k hunmatched (lt_of_getElem? wl k w hw) hfree
    · have hpred := List.find?_some hfirst
      exact .pair j hunmatched (List.mem_range.mp (List.mem_of_find?_eq_some hfirst))
        (by simpa using hpred)
  next => exact .same

theorem Adds.sound
    (h : Adds drm wl i t u) (hi : i < drm.length) (hsound : Sound drm wl t) : Sound drm wl u := by
  cases h with
  | same => exact hsound
  | pair j hunmatched hj hfree => exact hsound.take drm wl t i j hi hj hunmatched hfree

theorem Adds.extends (h : Adds drm wl i t u) : Extends t u := by
  cases h with
  | same => exact extends_refl t
  | pair j hunmatched hj hfree => exact extends_take t i j hunmatched

theorem Adds.of_ne
    (h : Adds drm wl i t u) (i' : ℕ) (hne : i' ≠ i) : u.matched i' = t.matched i' := by
  cases h with
  | same => rfl
  | pair j hunmatched hj hfree => exact matched_take_of_ne t i j i' hne

theorem mem_of_split (before after : List (DrmDisplayInfo × ℕ))
    (e : DrmDisplayInfo × ℕ) (hfull : drm.zipIdx = before ++ e :: after) :
    drm[e.2]? = some e.1 :=
  List.mem_zipIdx_iff_getElem?.mp (by rw [hfull]; simp)

theorem nameStep_some
    (hnone : t.matched e.2 = none) (hmatched : (nameStep wl t e).matched e.2 = some j) :
    ∃ w, wl[j]? = some w ∧ sameName e.1 w = true := by
  unfold nameStep at hmatched
  split at hmatched
  next w k hfound =>
    rw [matched_take_self] at hmatched
    obtain rfl := Option.some.inj hmatched
    obtain ⟨hw, -, hsame⟩ := free_of_find wl t (sameName e.1) w k hfound
    exact ⟨w, hw, hsame⟩
  next =>
    rw [hnone] at hmatched
    cases hmatched

/-- After the connectors before have had their turn, these alone have outputs, of their names. -/
structure Named (drm : List DrmDisplayInfo) (wl : List WaylandDisplayInfo)
    (before : List (DrmDisplayInfo × ℕ)) (t : Table) : Prop where
  sound : Sound drm wl t
  turn : ∀ i j, t.matched i = some j →
    ∃ f ∈ before, f.2 = i ∧ ∃ w, wl[j]? = some w ∧ sameName f.1 w = true

theorem named_unmatched
    (before after : List (DrmDisplayInfo × ℕ)) (e : DrmDisplayInfo × ℕ) (t : Table)
    (hfull : drm.zipIdx = before ++ e :: after) (h : Named drm wl before t) :
    t.matched e.2 = none := by
  cases hmatched : t.matched e.2 with
  | none => rfl
  | some j =>
    obtain ⟨f, hf, heq, -⟩ := h.turn e.2 j hmatched
    exact absurd heq (index_ne_of_zipIdx drm before after e f hfull hf)

theorem named_step (before after : List (DrmDisplayInfo × ℕ)) (e : DrmDisplayInfo × ℕ) (t : Table)
    (hfull : drm.zipIdx = before ++ e :: after) (h : Named drm wl before t) :
    Named drm wl (before ++ [e]) (nameStep wl t e) := by
  have hnone := named_unmatched drm wl before after e t hfull h
  have hadds := adds_nameStep drm wl t e hnone
  refine ⟨hadds.sound _ _ _ _ _ (lt_of_getElem? drm _ _ (mem_of_split drm before after e hfull))
    h.sound, ?_⟩
  intro i j hij
  by_cases hi : i = e.2
  · subst hi
    exact ⟨e, by simp, rfl, nameStep_some wl t e j hnone hij⟩
  · rw [hadds.of_ne _ _ _ _ _ i hi] at hij
    obtain ⟨f, hf, hrest⟩ := h.turn i j hij
    exact ⟨f, List.mem_append_left _ hf, hrest⟩

theorem named_nameTable : Named drm wl drm.zipIdx (nameTable drm wl) := by
  refine foldl_prefix (nameStep wl) (Named drm wl) .empty drm.zipIdx ?_
    (fun before e after t => named_step drm wl before after e t)
  exact ⟨sound_empty drm wl, fun i j h => by cases h⟩

theorem sound_pass (step : Table → DrmDisplayInfo × ℕ → Table) (start : Table)
    (hstep : ∀ t e, Adds drm wl e.2 t (step t e)) (hstart : Sound drm wl start) :
    Sound drm wl (drm.zipIdx.foldl step start) ∧
      Extends start (drm.zipIdx.foldl step start) := by
  refine foldl_prefix step (fun _ t => Sound drm wl t ∧ Extends start t) start drm.zipIdx
    ⟨hstart, extends_refl start⟩ ?_
  rintro before e after t hfull ⟨hsound, hextends⟩
  have hlt := lt_of_getElem? drm _ _ (mem_of_split drm before after e hfull)
  exact ⟨(hstep t e).sound _ _ _ _ _ hlt hsound,
    hextends.trans _ _ _ ((hstep t e).extends _ _ _ _ _)⟩

theorem sound_identityTable :
    Sound drm wl (identityTable drm wl) ∧ Extends (nameTable drm wl) (identityTable drm wl) :=
  sound_pass drm wl _ _ (adds_resolutionStep drm wl) (named_nameTable drm wl).sound

theorem getElem?_identityMatches (drm : List DrmDisplayInfo) (wl : List WaylandDisplayInfo)
    (i : ℕ) (hi : i < drm.length) :
    (identityMatches drm wl)[i]? = some ((identityTable drm wl).matched i) := by
  simp [identityMatches, hi]

theorem startTable_eq : startTable drm wl = identityTable drm wl := by
  have hsound := (sound_identityTable drm wl).1
  have hmatched : ∀ i, (identityMatches drm wl)[i]?.join = (identityTable drm wl).matched i := by
    intro i
    by_cases hi : i < drm.length
    · rw [getElem?_identityMatches drm wl i hi]
      rfl
    · rw [List.getElem?_eq_none (by simpa [identityMatches] using hi)]
      cases h : (identityTable drm wl).matched i with
      | none => rfl
      | some j => exact absurd (hsound.inside i j h).1 hi
  have htaken : ∀ j, decide (some j ∈ identityMatches drm wl) = (identityTable drm wl).taken j := by
    intro j
    rw [Bool.eq_iff_iff, decide_eq_true_iff, hsound.valid.taken_iff]
    simp only [identityMatches, List.mem_map, List.mem_range]
    constructor
    · rintro ⟨i, -, h⟩
      exact ⟨i, h⟩
    · rintro ⟨i, h⟩
      exact ⟨i, (hsound.inside i j h).1, h⟩
  rw [startTable]
  congr 1
  · exact funext hmatched
  · exact funext htaken

theorem sound_assignTable :
    Sound drm wl (assignTable drm wl) ∧ Extends (identityTable drm wl) (assignTable drm wl) := by
  rw [assignTable, startTable_eq]
  exact sound_pass drm wl _ _ (adds_fallbackStep drm wl) (sound_identityTable drm wl).1

theorem getElem?_assignWaylandOutputs (drm : List DrmDisplayInfo) (wl : List WaylandDisplayInfo)
    (i : ℕ) (hi : i < drm.length) :
    (assignWaylandOutputs drm wl)[i]? = some ((assignTable drm wl).matched i) := by
  simp [assignWaylandOutputs, hi]

theorem getElem?_assign_of_identity (drm : List DrmDisplayInfo) (wl : List WaylandDisplayInfo)
    (i j : ℕ) (hij : (identityMatches drm wl)[i]? = some (some j)) :
    (assignWaylandOutputs drm wl)[i]? = some (some j) := by
  have hlt : i < drm.length := by simpa [identityMatches] using lt_of_getElem? _ i _ hij
  rw [getElem?_identityMatches drm wl i hlt, Option.some.injEq] at hij
  rw [getElem?_assignWaylandOutputs drm wl i hlt, (sound_assignTable drm wl).2 i j hij]

theorem taken_of_fallbackStep (hnone : (fallbackStep wl t e).matched e.2 = none) (j : ℕ)
    (hj : j < wl.length) : t.taken j = true := by
  unfold fallbackStep at hnone
  split at hnone
  next hsome => simp [hnone] at hsome
  split at hnone
  next k hfound =>
    rw [matched_take_self] at hnone
    cases hnone
  next hfound =>
    rw [Option.or_eq_none_iff] at hfound
    simpa using List.find?_eq_none.mp hfound.2 j (List.mem_range.mpr hj)

/-- The pairs of a larger matching take more outputs. -/
theorem taken_mono (ht : Valid t) (hu : Valid u) (hextends : Extends t u) (j : ℕ)
    (hj : t.taken j = true) : u.taken j = true := by
  obtain ⟨i, hi⟩ := (ht.taken_iff j).mp hj
  exact (hu.taken_iff j).mpr ⟨i, hextends i j hi⟩

/-- When a connector is left without an output, every output is some connector's. -/
theorem taken_of_unmatched
    (hi : i < drm.length) (hnone : (assignTable drm wl).matched i = none) (j : ℕ)
    (hj : j < wl.length) : (assignTable drm wl).taken j = true := by
  have hpass : Sound drm wl (assignTable drm wl) ∧
      ∀ e ∈ drm.zipIdx, (assignTable drm wl).matched e.2 = none →
        ∀ j < wl.length, (assignTable drm wl).taken j = true := by
    rw [assignTable, startTable_eq]
    refine foldl_prefix (fallbackStep wl)
      (fun before t => Sound drm wl t ∧
        ∀ e ∈ before, t.matched e.2 = none → ∀ j < wl.length, t.taken j = true)
      (identityTable drm wl) drm.zipIdx ⟨(sound_identityTable drm wl).1, by simp⟩ ?_
    rintro before e after t hfull ⟨hsound, hdone⟩
    have hadds := adds_fallbackStep drm wl t e
    have hlt := lt_of_getElem? drm _ _ (mem_of_split drm before after e hfull)
    have hnext := hadds.sound _ _ _ _ _ hlt hsound
    have hmono := taken_mono t _ hsound.valid hnext.valid (hadds.extends _ _ _ _ _)
    refine ⟨hnext, ?_⟩
    intro f hf hunmatched k hk
    rcases List.mem_append.mp hf with hold | hnew
    · have hne := index_ne_of_zipIdx drm before after e f hfull hold
      rw [hadds.of_ne _ _ _ _ _ f.2 hne] at hunmatched
      exact hmono k (hdone f hold hunmatched k hk)
    · rw [List.mem_singleton.mp hnew] at hunmatched
      exact hmono k (taken_of_fallbackStep wl t e hunmatched k hk)
  have hmem : (drm[i], i) ∈ drm.zipIdx :=
    List.mem_zipIdx_iff_getElem?.mpr (List.getElem?_eq_getElem hi)
  exact hpass.2 _ hmem hnone j hj

/-! ### What is matched by resolution -/

def resolved (drm : List DrmDisplayInfo) (wl : List WaylandDisplayInfo) (t : Table)
    (d : DrmDisplayInfo) : Option ℕ :=
  match freeSame wl t d with
  | [j] => if unmatchedSame drm t d = 1 then some j else none
  | _ => none

theorem resolutionStep_matched (hnone : t.matched e.2 = none) :
    (resolutionStep drm wl t e).matched e.2 = resolved drm wl t e.1 := by
  unfold resolutionStep resolved
  rw [if_neg (by simp [hnone])]
  split
  · split
    · exact matched_take_self ..
    · exact hnone
  · exact hnone

theorem asI32_inj (m n : UInt32) (h : asI32 m = asI32 n) : m = n := by
  have hm := m.toNat_lt
  have hn := n.toNat_lt
  unfold asI32 at h
  rw [Int.bmod_def, Int.bmod_def] at h
  apply UInt32.toNat.inj
  split at h <;> split at h <;> omega

theorem size_of_sameSize (o : DrmDisplayInfo) (w : WaylandDisplayInfo)
    (hd : sameSize d w = true) (ho : sameSize o w = true) :
    o.width = d.width ∧ o.height = d.height := by
  simp only [sameSize, Bool.and_eq_true, decide_eq_true_iff] at hd ho
  exact ⟨asI32_inj _ _ (ho.1.symm.trans hd.1), asI32_inj _ _ (ho.2.symm.trans hd.2)⟩

/-- Two unmatched connectors of one size: neither is matched by resolution. -/
theorem unmatchedSame_ne_one (o : DrmDisplayInfo)
    (i k : ℕ) (hi : drm[i]? = some d) (hk : drm[k]? = some o) (hne : k ≠ i)
    (hsize : o.width = d.width ∧ o.height = d.height) (hfree : t.matched i = none)
    (hfree' : t.matched k = none) : unmatchedSame drm t d ≠ 1 := by
  intro hone
  obtain ⟨e, he⟩ := List.length_eq_one_iff.mp hone
  have hmem : ∀ f ∈ [(d, i), (o, k)], f = e := by
    intro f hf
    rw [← List.mem_singleton, ← he, List.mem_filter, List.mem_zipIdx_iff_getElem?]
    rcases List.mem_pair.mp hf with rfl | rfl
    · exact ⟨hi, by simp [hfree]⟩
    · exact ⟨hk, by simp [hfree', hsize]⟩
  have hsame := (hmem (o, k) (by simp)).trans (hmem (d, i) (by simp)).symm
  exact hne (Prod.mk.inj hsame).2

theorem resolved_eq_some :
    resolved drm wl t d = some j ↔ freeSame wl t d = [j] ∧ unmatchedSame drm t d = 1 := by
  unfold resolved
  split
  next k hfree =>
    split
    next hone => simp [hfree, hone]
    next hone => simp [hone]
  next hnot =>
    refine iff_of_false (by simp) ?_
    rintro ⟨hfree, -⟩
    exact hnot j hfree

/-- The connectors that had no output by name take one by their size, or stay as they are. -/
structure Resolving (drm : List DrmDisplayInfo) (wl : List WaylandDisplayInfo) (start : Table)
    (before : List (DrmDisplayInfo × ℕ)) (t : Table) : Prop where
  sound : Sound drm wl t
  extends' : Extends start t
  done : ∀ e ∈ before, start.matched e.2 = none → t.matched e.2 = resolved drm wl start e.1
  todo : ∀ e ∈ drm.zipIdx, e ∉ before → start.matched e.2 = none → t.matched e.2 = none

/-- A pair that came in has taken the only output of its size, for the only connector. -/
theorem Resolving.pair (start : Table)
    (before : List (DrmDisplayInfo × ℕ)) (t : Table) (h : Resolving drm wl start before t)
    (k j : ℕ) (o : DrmDisplayInfo) (ho : drm[k]? = some o) (hnone : start.matched k = none)
    (hmatched : t.matched k = some j) : freeSame wl start o = [j] ∧
    unmatchedSame drm start o = 1 := by
  have hmem : (o, k) ∈ before := by
    by_contra hnot
    rw [h.todo (o, k) (List.mem_zipIdx_iff_getElem?.mpr ho) hnot hnone] at hmatched
    cases hmatched
  rw [h.done (o, k) hmem hnone] at hmatched
  exact (resolved_eq_some drm wl start o j).mp hmatched

/-- As long as a connector is unmatched, the pairs that came in leave its choice as it was. -/
theorem Resolving.resolved_eq (start : Table) (before : List (DrmDisplayInfo × ℕ)) (t : Table)
    (h : Resolving drm wl start before t) (hstart : Sound drm wl start) (i : ℕ) (d : DrmDisplayInfo)
    (hd : drm[i]? = some d) (hnone : t.matched i = none) :
    resolved drm wl t d = resolved drm wl start d := by
  have hnone' : start.matched i = none := by
    cases hmatched : start.matched i with
    | none => rfl
    | some j =>
      rw [h.extends' i j hmatched] at hnone
      cases hnone
  -- another connector of the size, matched since: it would not have been the only one
  have hother : ∀ k o j, drm[k]? = some o → start.matched k = none → t.matched k = some j →
      ¬ (d.width = o.width ∧ d.height = o.height) := by
    intro k o j ho hk hmatched hsize
    have hne : i ≠ k := by
      rintro rfl
      rw [hnone] at hmatched
      cases hmatched
    exact unmatchedSame_ne_one drm start o d k i ho hd hne hsize hk hnone'
      (h.pair _ _ _ _ _ k j o ho hk hmatched).2
  have htaken : ∀ j w, wl[j]? = some w → sameSize d w = true → t.taken j = start.taken j := by
    intro j w hw hsize
    rw [Bool.eq_iff_iff]
    refine ⟨fun htaken => ?_, taken_mono start t hstart.valid h.sound.valid h.extends' j⟩
    obtain ⟨k, hk⟩ := (h.sound.valid.taken_iff j).mp htaken
    cases hmatched : start.matched k with
    | some j' =>
      rw [h.extends' k j' hmatched] at hk
      exact (hstart.valid.taken_iff j).mpr ⟨k, hk ▸ hmatched⟩
    | none =>
      have hlt : k < drm.length := (h.sound.inside k j hk).1
      have ho : drm[k]? = some drm[k] := List.getElem?_eq_getElem hlt
      have hlone := (h.pair _ _ _ _ _ k j _ ho hmatched hk).1
      obtain ⟨w', hw', -, hsize'⟩ := (mem_freeSame wl start drm[k] j).mp (by rw [hlone]; simp)
      obtain rfl := Option.some.inj (hw.symm.trans hw')
      exact absurd (size_of_sameSize _ _ w hsize' hsize) (hother k _ j ho hmatched hk)
  have hfree : freeSame wl t d = freeSame wl start d := by
    rw [freeSame, freeSame]
    congr 1
    refine List.filter_congr fun f hf => ?_
    cases hsize : sameSize d f.1 with
    | false => simp
    | true => rw [htaken f.2 f.1 (List.mem_zipIdx_iff_getElem?.mp hf) hsize]
  have hcount : unmatchedSame drm t d = unmatchedSame drm start d := by
    rw [unmatchedSame, unmatchedSame]
    congr 1
    refine List.filter_congr fun f hf => ?_
    by_cases hsize : d.width = f.1.width ∧ d.height = f.1.height
    · have hsame : (t.matched f.2).isNone = (start.matched f.2).isNone := by
        cases hmatched : start.matched f.2 with
        | some j => rw [h.extends' f.2 j hmatched]
        | none =>
          cases hlater : t.matched f.2 with
          | none => rfl
          | some j =>
            exact absurd hsize
              (hother f.2 f.1 j (List.mem_zipIdx_iff_getElem?.mp hf) hmatched hlater)
      rw [hsame]
    · rw [not_and_or] at hsize
      rcases hsize with hne | hne
      · simp [Ne.symm hne]
      · simp [Ne.symm hne]
  rw [resolved, resolved, hfree, hcount]

theorem resolving_step (start : Table)
    (hstart : Sound drm wl start) (before after : List (DrmDisplayInfo × ℕ))
    (e : DrmDisplayInfo × ℕ) (t : Table) (hfull : drm.zipIdx = before ++ e :: after)
    (h : Resolving drm wl start before t) :
    Resolving drm wl start (before ++ [e]) (resolutionStep drm wl t e) := by
  have hadds := adds_resolutionStep drm wl t e
  have he := mem_of_split drm before after e hfull
  have hnew : e ∉ before := fun hmem => index_ne_of_zipIdx drm before after e e hfull hmem rfl
  refine ⟨hadds.sound _ _ _ _ _ (lt_of_getElem? drm _ _ he) h.sound,
    h.extends'.trans _ _ _ (hadds.extends _ _ _ _ _), ?_, ?_⟩
  · intro f hf hnone
    rcases List.mem_append.mp hf with hold | hlast
    · rw [hadds.of_ne _ _ _ _ _ f.2 (index_ne_of_zipIdx drm before after e f hfull hold)]
      exact h.done f hold hnone
    · obtain rfl := List.mem_singleton.mp hlast
      have hunmatched := h.todo f (List.mem_zipIdx_iff_getElem?.mpr he) hnew hnone
      rw [resolutionStep_matched drm wl t f hunmatched]
      exact h.resolved_eq drm wl start before t hstart f.2 f.1 he hunmatched
  · intro f hf hnot hnone
    rw [List.mem_append, not_or, List.mem_singleton] at hnot
    have hne : f.2 ≠ e.2 := by
      intro heq
      have hf' := List.mem_zipIdx_iff_getElem?.mp hf
      rw [heq, he] at hf'
      exact hnot.2 (Prod.ext (Option.some.inj hf').symm heq)
    rw [hadds.of_ne _ _ _ _ _ f.2 hne]
    exact h.todo f hf hnot.1 hnone

/-- The identity matches in closed form: by name, or else by resolution from what the names left. -/
theorem identityTable_matched (hd : drm[i]? = some d) :
    (identityTable drm wl).matched i =
      ((nameTable drm wl).matched i).or (resolved drm wl (nameTable drm wl) d) := by
  have hstart := (named_nameTable drm wl).sound
  have h : Resolving drm wl (nameTable drm wl) drm.zipIdx (identityTable drm wl) := by
    refine foldl_prefix (resolutionStep drm wl) (Resolving drm wl (nameTable drm wl))
      (nameTable drm wl) drm.zipIdx ?_
      (fun before e after t => resolving_step drm wl _ hstart before after e t)
    exact ⟨hstart, extends_refl _, by simp, fun _ _ _ hnone => hnone⟩
  cases hmatched : (nameTable drm wl).matched i with
  | some j => rw [h.extends' i j hmatched, Option.some_or]
  | none =>
    rw [h.done (d, i) (List.mem_zipIdx_iff_getElem?.mpr hd) hmatched, Option.none_or]

/-! ### What is matched by name -/

theorem nameStep_none
    (hmatched : (nameStep wl t e).matched e.2 = none) (j : ℕ) (w : WaylandDisplayInfo)
    (hw : wl[j]? = some w) (hsame : sameName e.1 w = true) : t.taken j = true := by
  unfold nameStep at hmatched
  split at hmatched
  next =>
    rw [matched_take_self] at hmatched
    cases hmatched
  next hnot =>
    simpa [hsame] using List.find?_eq_none.mp hnot (w, j) (List.mem_zipIdx_iff_getElem?.mpr hw)

theorem sameName_of_nameTable (d : DrmDisplayInfo) (hd : drm[i]? = some d)
    (hmatched : (nameTable drm wl).matched i = some j) :
    ∃ w, wl[j]? = some w ∧ sameName d w = true := by
  obtain ⟨f, hf, rfl, w, hw, hsame⟩ := (named_nameTable drm wl).turn i j hmatched
  obtain rfl := Option.some.inj (hd.symm.trans (List.mem_zipIdx_iff_getElem?.mp hf))
  exact ⟨w, hw, hsame⟩

/-- A name that a connector shares with an output is shared with no other connector or output. -/
def Unambiguous (drm : List DrmDisplayInfo) (wl : List WaylandDisplayInfo) : Prop :=
  ∀ d ∈ drm, ∀ w ∈ wl, sameName d w = true →
    (∀ d' ∈ drm, sameName d' w = true → d' = d) ∧ ∀ w' ∈ wl, sameName d w' = true → w' = w

theorem index_unique {α : Type} (xs : List α) (hxs : xs.Nodup) (i j : ℕ) (x : α)
    (hi : xs[i]? = some x) (hj : xs[j]? = some x) : i = j :=
  (List.getElem?_inj (lt_of_getElem? xs i x hi) hxs).mp (hi.trans hj.symm)

/-- When the names are not ambiguous, the connectors that share one with an output get it. -/
theorem nameTable_matched
    (hdrm : drm.Nodup) (hwl : wl.Nodup) (hun : Unambiguous drm wl) (i j : ℕ) (d : DrmDisplayInfo)
    (hd : drm[i]? = some d) :
    (nameTable drm wl).matched i = some j ↔ ∃ w, wl[j]? = some w ∧ sameName d w = true := by
  have hpass : Named drm wl drm.zipIdx (nameTable drm wl) ∧ ∀ e ∈ drm.zipIdx, ∀ j w,
      wl[j]? = some w → sameName e.1 w = true → (nameTable drm wl).matched e.2 = some j := by
    refine foldl_prefix (nameStep wl) (fun before t => Named drm wl before t ∧ ∀ e ∈ before, ∀ j w,
      wl[j]? = some w → sameName e.1 w = true → t.matched e.2 = some j) .empty drm.zipIdx
      ⟨⟨sound_empty drm wl, fun i j h => by cases h⟩, by simp⟩ ?_
    rintro before e after t hfull ⟨hnamed, hsame⟩
    have hnone := named_unmatched drm wl before after e t hfull hnamed
    have hadds := adds_nameStep drm wl t e hnone
    have he := mem_of_split drm before after e hfull
    refine ⟨named_step drm wl before after e t hfull hnamed, ?_⟩
    intro f hf k w hw hfw
    rcases List.mem_append.mp hf with hold | hlast
    · rw [hadds.of_ne _ _ _ _ _ f.2 (index_ne_of_zipIdx drm before after e f hfull hold)]
      exact hsame f hold k w hw hfw
    obtain rfl := List.mem_singleton.mp hlast
    have honly := hun f.1 (List.mem_of_getElem? he) w (List.mem_of_getElem? hw) hfw
    cases hmatched : (nameStep wl t f).matched f.2 with
    | some k' =>
      obtain ⟨w', hw', hfw'⟩ := nameStep_some wl t f k' hnone hmatched
      obtain rfl := honly.2 w' (List.mem_of_getElem? hw') hfw'
      rw [index_unique wl hwl k k' w' hw hw']
    | none =>
      -- the output would have been taken by an earlier connector of the name
      have htaken := nameStep_none wl t f hmatched k w hw hfw
      obtain ⟨i', hi'⟩ := (hnamed.sound.valid.taken_iff k).mp htaken
      obtain ⟨g, hg, rfl, w', hw', hgw⟩ := hnamed.turn i' k hi'
      have hgd : drm[g.2]? = some g.1 :=
        List.mem_zipIdx_iff_getElem?.mp (by rw [hfull]; exact List.mem_append_left _ hg)
      obtain rfl := Option.some.inj (hw.symm.trans hw')
      have hsame := honly.1 g.1 (List.mem_of_getElem? hgd) hgw
      exact absurd (index_unique drm hdrm g.2 f.2 f.1 (hsame ▸ hgd) he)
        (index_ne_of_zipIdx drm before after f g hfull hg)
  constructor
  · exact sameName_of_nameTable drm wl i j d hd
  · rintro ⟨w, hw, hdw⟩
    exact hpass.2 (d, i) (List.mem_zipIdx_iff_getElem?.mpr hd) j w hw hdw

/-! ### The identity matches as a relation -/

def Matches (drm : List DrmDisplayInfo) (wl : List WaylandDisplayInfo) (d : DrmDisplayInfo)
    (w : WaylandDisplayInfo) : Prop :=
  ∃ i j : ℕ, drm[i]? = some d ∧ wl[j]? = some w ∧ (identityMatches drm wl)[i]? = some (some j)

def freeOutputs (drm : List DrmDisplayInfo) (wl : List WaylandDisplayInfo) (d : DrmDisplayInfo) :
    List WaylandDisplayInfo :=
  wl.filter fun w => !drm.any (sameName · w) && sameSize d w

def unnamedConnectors (drm : List DrmDisplayInfo) (wl : List WaylandDisplayInfo)
    (d : DrmDisplayInfo) : List DrmDisplayInfo :=
  drm.filter fun o => !wl.any (sameName o) && decide (o.width = d.width) &&
    decide (o.height = d.height)

theorem filter_zipIdx_map_fst {α : Type} (xs : List α) (p : α × ℕ → Bool) (q : α → Bool)
    (hpq : ∀ i x, xs[i]? = some x → p (x, i) = q x) :
    (xs.zipIdx.filter p).map Prod.fst = xs.filter q := by
  have hsame : xs.zipIdx.filter p = xs.zipIdx.filter (q ∘ Prod.fst) :=
    List.filter_congr fun f hf => hpq f.2 f.1 (List.mem_zipIdx_iff_getElem?.mp hf)
  rw [hsame, ← List.filter_map, List.zipIdx_map_fst]

section Unambiguous

variable (drm : List DrmDisplayInfo) (wl : List WaylandDisplayInfo) (hdrm : drm.Nodup)
  (hwl : wl.Nodup) (hun : Unambiguous drm wl)

include hdrm hwl hun

theorem isNone_nameTable (i : ℕ) (d : DrmDisplayInfo) (hd : drm[i]? = some d) :
    ((nameTable drm wl).matched i).isNone = !wl.any (sameName d) := by
  cases hmatched : (nameTable drm wl).matched i with
  | some j =>
    obtain ⟨w, hw, hsame⟩ := sameName_of_nameTable drm wl i j d hd hmatched
    have hany : wl.any (sameName d) = true :=
      List.any_eq_true.mpr ⟨w, List.mem_of_getElem? hw, hsame⟩
    rw [hany]
    rfl
  | none =>
    have hany : wl.any (sameName d) = false := by
      rw [List.any_eq_false]
      intro w hw hsame
      obtain ⟨j, hj⟩ := List.mem_iff_getElem?.mp hw
      rw [(nameTable_matched drm wl hdrm hwl hun i j d hd).mpr ⟨w, hj, hsame⟩] at hmatched
      cases hmatched
    rw [hany]
    rfl

theorem taken_nameTable (j : ℕ) (w : WaylandDisplayInfo) (hw : wl[j]? = some w) :
    (nameTable drm wl).taken j = drm.any (sameName · w) := by
  have hsound := (named_nameTable drm wl).sound
  rw [Bool.eq_iff_iff, hsound.valid.taken_iff, List.any_eq_true]
  constructor
  · rintro ⟨i, hi⟩
    have hlt := (hsound.inside i j hi).1
    have hd : drm[i]? = some drm[i] := List.getElem?_eq_getElem hlt
    obtain ⟨w', hw', hsame⟩ := sameName_of_nameTable drm wl i j drm[i] hd hi
    obtain rfl := Option.some.inj (hw.symm.trans hw')
    exact ⟨drm[i], List.mem_of_getElem? hd, hsame⟩
  · rintro ⟨d, hd, hsame⟩
    obtain ⟨i, hi⟩ := List.mem_iff_getElem?.mp hd
    exact ⟨i, (nameTable_matched drm wl hdrm hwl hun i j d hi).mpr ⟨w, hw, hsame⟩⟩

theorem freeSame_nameTable (d : DrmDisplayInfo) (j : ℕ) (w : WaylandDisplayInfo)
    (hw : wl[j]? = some w) :
    freeSame wl (nameTable drm wl) d = [j] ↔ freeOutputs drm wl d = [w] := by
  have hfst : (wl.zipIdx.filter fun f =>
      !(nameTable drm wl).taken f.2 && sameSize d f.1).map Prod.fst = freeOutputs drm wl d :=
    filter_zipIdx_map_fst wl _ _ fun i x hx => by
      rw [taken_nameTable drm wl hdrm hwl hun i x hx]
  rw [← hfst, freeSame]
  generalize hfree : wl.zipIdx.filter (fun f =>
    !(nameTable drm wl).taken f.2 && sameSize d f.1) = free
  have hmem : ∀ f ∈ free, wl[f.2]? = some f.1 := by
    intro f hf
    rw [← hfree] at hf
    exact List.mem_zipIdx_iff_getElem?.mp (List.mem_filter.mp hf).1
  constructor
  · intro hone
    obtain ⟨f, rfl, hf⟩ := List.map_eq_singleton_iff.mp hone
    have hf' := hmem f (List.mem_singleton_self f)
    rw [hf, hw] at hf'
    rw [List.map_singleton, ← Option.some.inj hf']
  · intro hone
    obtain ⟨f, rfl, hf⟩ := List.map_eq_singleton_iff.mp hone
    have hf' := hmem f (List.mem_singleton_self f)
    rw [hf] at hf'
    rw [List.map_singleton, index_unique wl hwl f.2 j w hf' hw]

theorem unmatchedSame_nameTable (d : DrmDisplayInfo) :
    unmatchedSame drm (nameTable drm wl) d = (unnamedConnectors drm wl d).length := by
  have hfst : (drm.zipIdx.filter fun o => ((nameTable drm wl).matched o.2).isNone &&
      decide (o.1.width = d.width) && decide (o.1.height = d.height)).map Prod.fst =
        unnamedConnectors drm wl d :=
    filter_zipIdx_map_fst drm _ _ fun i x hx => by
      rw [isNone_nameTable drm wl hdrm hwl hun i x hx]
  rw [← hfst, List.length_map, unmatchedSame]

/-- The relation without the order: the name, or the only output and connector left of the size. -/
theorem matches_iff (d : DrmDisplayInfo) (w : WaylandDisplayInfo) :
    Matches drm wl d w ↔ d ∈ drm ∧ w ∈ wl ∧ (sameName d w = true ∨
      (wl.any (sameName d) = false ∧ freeOutputs drm wl d = [w] ∧
        (unnamedConnectors drm wl d).length = 1)) := by
  have hpair : ∀ i j : ℕ, drm[i]? = some d → wl[j]? = some w →
      ((identityMatches drm wl)[i]? = some (some j) ↔ (sameName d w = true ∨
        (wl.any (sameName d) = false ∧ freeOutputs drm wl d = [w] ∧
          (unnamedConnectors drm wl d).length = 1))) := by
    intro i j hd hw
    rw [getElem?_identityMatches drm wl i (lt_of_getElem? drm i d hd), Option.some.injEq,
      identityTable_matched drm wl i d hd, Option.or_eq_some_iff, resolved_eq_some,
      nameTable_matched drm wl hdrm hwl hun i j d hd,
      freeSame_nameTable drm wl hdrm hwl hun d j w hw,
      unmatchedSame_nameTable drm wl hdrm hwl hun d, ← Option.isNone_iff_eq_none,
      isNone_nameTable drm wl hdrm hwl hun i d hd, Bool.not_eq_true']
    simp [hw]
  constructor
  · rintro ⟨i, j, hd, hw, h⟩
    exact ⟨List.mem_of_getElem? hd, List.mem_of_getElem? hw, (hpair i j hd hw).mp h⟩
  · rintro ⟨hd, hw, h⟩
    obtain ⟨i, hi⟩ := List.mem_iff_getElem?.mp hd
    obtain ⟨j, hj⟩ := List.mem_iff_getElem?.mp hw
    exact ⟨i, j, hi, hj, (hpair i j hi hj).mpr h⟩

end Unambiguous

/-! ### What is promised of the matching -/

def Literal (drm : List DrmDisplayInfo) (wl : List WaylandDisplayInfo) : Prop :=
  ∀ (i j : ℕ) (d : DrmDisplayInfo) (w : WaylandDisplayInfo), drm[i]? = some d →
    wl[j]? = some w → d.name = w.name → (assignWaylandOutputs drm wl)[i]? = some (some j)

/-- A match that is not by name is of the only free output and the only unmatched connector. -/
def ByResolution (drm : List DrmDisplayInfo) (wl : List WaylandDisplayInfo) : Prop :=
  ∀ (i j : ℕ) (d : DrmDisplayInfo) (w : WaylandDisplayInfo), drm[i]? = some d →
    wl[j]? = some w → (identityMatches drm wl)[i]? = some (some j) → sameName d w = true ∨
      (freeSame wl (nameTable drm wl) d = [j] ∧ unmatchedSame drm (nameTable drm wl) d = 1)

/-- The lists in another order give the same matches. -/
def OrderFree (drm : List DrmDisplayInfo) (wl : List WaylandDisplayInfo) : Prop :=
  ∀ drm' wl', drm.Perm drm' → wl.Perm wl' →
    ∀ d w, Matches drm' wl' d w ↔ Matches drm wl d w

theorem byResolution : ByResolution drm wl := by
  intro i j d w hd hw hmatched
  rw [getElem?_identityMatches drm wl i (lt_of_getElem? drm i d hd), Option.some.injEq,
    identityTable_matched drm wl i d hd, Option.or_eq_some_iff, resolved_eq_some] at hmatched
  rcases hmatched with hname | ⟨-, hsize⟩
  · obtain ⟨w', hw', hsame⟩ := sameName_of_nameTable drm wl i j d hd hname
    obtain rfl := Option.some.inj (hw.symm.trans hw')
    exact Or.inl hsame
  · exact Or.inr hsize

theorem literal_of_unambiguous
    (hdrm : drm.Nodup) (hwl : wl.Nodup) (hun : Unambiguous drm wl) : Literal drm wl := by
  intro i j d w hd hw hname
  have hsame : sameName d w = true := by simp [sameName, hname]
  have hmatched := (nameTable_matched drm wl hdrm hwl hun i j d hd).mpr ⟨w, hw, hsame⟩
  have hextends := (sound_identityTable drm wl).2.trans _ _ _ (sound_assignTable drm wl).2
  rw [getElem?_assignWaylandOutputs drm wl i (lt_of_getElem? drm i d hd), hextends i j hmatched]

theorem Unambiguous.perm (drm' : List DrmDisplayInfo) (wl wl' : List WaylandDisplayInfo)
    (hun : Unambiguous drm wl) (hdrm : drm.Perm drm') (hwl : wl.Perm wl') :
    Unambiguous drm' wl' := by
  intro d hd w hw hsame
  obtain ⟨hd', hw'⟩ := hun d (hdrm.mem_iff.mpr hd) w (hwl.mem_iff.mpr hw) hsame
  exact ⟨fun o ho => hd' o (hdrm.mem_iff.mpr ho), fun o ho => hw' o (hwl.mem_iff.mpr ho)⟩

theorem orderFree_of_unambiguous
    (hdrm : drm.Nodup) (hwl : wl.Nodup) (hun : Unambiguous drm wl) : OrderFree drm wl := by
  intro drm' wl' hpd hpw d w
  have hnamed : ∀ w, drm'.any (sameName · w) = drm.any (sameName · w) := fun w => hpd.symm.any_eq
  have hnamed' : ∀ d, wl'.any (sameName d) = wl.any (sameName d) := fun d => hpw.symm.any_eq
  have hfree : (freeOutputs drm' wl' d).Perm (freeOutputs drm wl d) := by
    rw [freeOutputs, freeOutputs]
    simp only [hnamed]
    exact hpw.symm.filter _
  have hcount : (unnamedConnectors drm' wl' d).length = (unnamedConnectors drm wl d).length := by
    rw [unnamedConnectors, unnamedConnectors]
    simp only [hnamed']
    exact (hpd.symm.filter _).length_eq
  have hone : freeOutputs drm' wl' d = [w] ↔ freeOutputs drm wl d = [w] := by
    rw [← List.perm_singleton, ← List.perm_singleton]
    exact ⟨hfree.symm.trans, hfree.trans⟩
  rw [matches_iff drm' wl' (hpd.nodup hdrm) (hpw.nodup hwl) (hun.perm _ _ _ _ hpd hpw) d w,
    matches_iff drm wl hdrm hwl hun d w, hnamed' d, hone, hcount, hpd.mem_iff, hpw.mem_iff]

/-! ### Ambiguous names -/

theorem foldl_nameStep_of_ne
    (es : List (DrmDisplayInfo × ℕ)) (t : Table) (hes : ∀ e ∈ es, i ≠ e.2) :
    (es.foldl (nameStep wl) t).matched i = t.matched i := by
  induction es generalizing t with
  | nil => rfl
  | cons e es ih =>
    rw [List.foldl_cons, ih _ fun f hf => hes f (List.mem_cons_of_mem e hf), nameStep]
    split
    · exact matched_take_of_ne t e.2 _ i (hes e (List.mem_cons_self ..))
    · rfl

theorem matches_first (drm : List DrmDisplayInfo)
    (wl : List WaylandDisplayInfo) (hsame : sameName d w = true) :
    Matches (d :: drm) (w :: wl) d w := by
  have hfirst : nameStep (w :: wl) .empty (d, 0) = empty.take 0 0 := by
    simp [nameStep, hsame, empty]
  have hmatched : (nameTable (d :: drm) (w :: wl)).matched 0 = some 0 := by
    rw [nameTable, List.zipIdx_cons, List.foldl_cons, hfirst, foldl_nameStep_of_ne]
    · exact matched_take_self ..
    · intro e he heq
      have hle := (List.mem_zipIdx he).1
      omega
  have hextends := (sound_identityTable (d :: drm) (w :: wl)).2 0 0 hmatched
  refine ⟨0, 0, rfl, rfl, ?_⟩
  rw [getElem?_identityMatches _ _ 0 (by simp), hextends]

theorem OrderFree.matches
    (h : OrderFree drm wl) (d : DrmDisplayInfo) (hd : d ∈ drm) (w : WaylandDisplayInfo)
    (hw : w ∈ wl) (hsame : sameName d w = true) : Matches drm wl d w :=
  (h _ _ (List.perm_cons_erase hd) (List.perm_cons_erase hw) d w).mp
    (matches_first d w _ _ hsame)

theorem Matches.index (h : Matches drm wl d w) :
    ∃ i j : ℕ, drm[i]? = some d ∧ wl[j]? = some w ∧ (identityTable drm wl).matched i = some j := by
  obtain ⟨i, j, hi, hj, hmatched⟩ := h
  rw [getElem?_identityMatches drm wl i (lt_of_getElem? drm i d hi), Option.some.injEq] at hmatched
  exact ⟨i, j, hi, hj, hmatched⟩

/-- An ambiguous name goes to the one that comes first, so the order matters. -/
theorem unambiguous_of_orderFree
    (hdrm : drm.Nodup) (hwl : wl.Nodup) (h : OrderFree drm wl) : Unambiguous drm wl := by
  have hvalid := (sound_identityTable drm wl).1.valid
  intro d hd w hw hsame
  obtain ⟨i, j, hi, hj, hij⟩ := (h.matches drm wl d hd w hw hsame).index
  constructor
  · intro d' hd' hsame'
    obtain ⟨i', j', hi', hj', hij'⟩ := (h.matches drm wl d' hd' w hw hsame').index
    obtain rfl := index_unique wl hwl j j' w hj hj'
    obtain rfl := hvalid.unique i i' j hij hij'
    exact Option.some.inj (hi'.symm.trans hi)
  · intro w' hw' hsame'
    obtain ⟨i', j', hi', hj', hij'⟩ := (h.matches drm wl d hd w' hw' hsame').index
    obtain rfl := index_unique drm hdrm i i' d hi hi'
    obtain rfl := Option.some.inj (hij.symm.trans hij')
    exact Option.some.inj (hj'.symm.trans hj)

/-- An output is for one connector, matches by identity stay, and no output is left while a
connector has none; with distinct names the rest holds exactly if none is ambiguous. -/
theorem outputs_assigned (drm : List DrmDisplayInfo) (wl : List WaylandDisplayInfo) :
    (∀ i i' j : ℕ, (assignWaylandOutputs drm wl)[i]? = some (some j) →
        (assignWaylandOutputs drm wl)[i']? = some (some j) → i = i') ∧
      (∀ i j : ℕ, (identityMatches drm wl)[i]? = some (some j) →
        (assignWaylandOutputs drm wl)[i]? = some (some j)) ∧
      (∀ i : ℕ, (assignWaylandOutputs drm wl)[i]? = some none →
        ∀ j < wl.length, some j ∈ assignWaylandOutputs drm wl) ∧
      ((drm.map DrmDisplayInfo.name).Nodup → (wl.map WaylandDisplayInfo.name).Nodup →
        (Literal drm wl ∧ ByResolution drm wl ∧ OrderFree drm wl ↔ Unambiguous drm wl)) := by
  have hsound := (sound_assignTable drm wl).1
  have hassign : ∀ (i : ℕ) (m : Option ℕ), (assignWaylandOutputs drm wl)[i]? = some m ↔
      i < drm.length ∧ (assignTable drm wl).matched i = m := by
    intro i m
    by_cases hi : i < drm.length
    · rw [getElem?_assignWaylandOutputs drm wl i hi, Option.some.injEq]
      simp [hi]
    · rw [List.getElem?_eq_none (by simpa [assignWaylandOutputs] using hi)]
      simp [hi]
  refine ⟨?_, ?_, ?_, ?_⟩
  · intro i i' j hi hi'
    exact hsound.valid.unique i i' j ((hassign i _).mp hi).2 ((hassign i' _).mp hi').2
  · exact getElem?_assign_of_identity drm wl
  · intro i hi j hj
    obtain ⟨hlt, hnone⟩ := (hassign i none).mp hi
    have htaken := taken_of_unmatched drm wl i hlt hnone j hj
    obtain ⟨k, hk⟩ := (hsound.valid.taken_iff j).mp htaken
    exact List.mem_of_getElem? ((hassign k _).mpr ⟨(hsound.inside k j hk).1, hk⟩)
  · intro hdrm hwl
    have hdrm' := List.Nodup.of_map _ hdrm
    have hwl' := List.Nodup.of_map _ hwl
    constructor
    · rintro ⟨-, -, hfree⟩
      exact unambiguous_of_orderFree drm wl hdrm' hwl' hfree
    · intro hun
      exact ⟨literal_of_unambiguous drm wl hdrm' hwl' hun, byResolution drm wl,
        orderFree_of_unambiguous drm wl hdrm' hwl' hun⟩

def cardConnectors : List DrmDisplayInfo :=
  [⟨"HDMI-A-1", 0, 0, 1920, 1080, true, "/dev/dri/card0"⟩,
    ⟨"DP-1", 0, 0, 1920, 1080, true, "/dev/dri/card0"⟩]

def cardOutputs : List WaylandDisplayInfo :=
  [⟨"DP-1", 0, 0, 1920, 1080, none, 60, 0⟩, ⟨"HDMI-A-1", 1920, 0, 1920, 1080, none, 60, 0⟩]

theorem outputs_assigned_card : Literal cardConnectors cardOutputs :=
  (((outputs_assigned cardConnectors cardOutputs).2.2.2 (by decide) (by decide)).mpr
    (by unfold Unambiguous; decide)).1

def dviConnectors : List DrmDisplayInfo :=
  [⟨"DVI-D-1", 0, 0, 1920, 1080, true, "/dev/dri/card0"⟩,
    ⟨"DVI-I-1", 0, 0, 1280, 1024, true, "/dev/dri/card0"⟩]

def dviOutputs : List WaylandDisplayInfo :=
  [⟨"DVI-I-1", 0, 0, 1280, 1024, none, 60, 0⟩, ⟨"DVI-D-1", 1280, 0, 1920, 1080, none, 60, 0⟩]

/-- The DVI connectors of a card differ in the letter alone: the first one takes the output of the
second. -/
theorem stolen_name :
    (dviConnectors.map DrmDisplayInfo.name).Nodup ∧
      (dviOutputs.map WaylandDisplayInfo.name).Nodup ∧ ¬ Literal dviConnectors dviOutputs := by
  refine ⟨by decide, by decide, ?_⟩
  intro h
  have hstolen := h 0 1 _ _ rfl rfl rfl
  revert hstolen
  decide

end ClantoDesk.ConnectorMatching
