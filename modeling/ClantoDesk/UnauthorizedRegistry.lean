import Mathlib.Data.Int.Notation
import Mathlib.Data.List.Nodup
import Mathlib.Data.List.Pairwise
import Mathlib.Tactic.Common
import ClantoDesk.Runs

/-!
Connections between accept and authorization. Each holds a guard, and a registry
under one lock lists the guards that have not been dropped. The flag and the notification of
a guard are in a cell that the guard and its entry share, so a cell is a number into
the memory of the state. A call of `admit_unauthorized` and the drop of a guard each hold the
lock throughout, so a history is a list of such events. The state also notes the live guards in
the order in which they were handed out, which the code does not keep.
-/
namespace ClantoDesk.UnauthorizedRegistry

open Runs

def MAX_UNAUTHORIZED_CONNS : ℕ := 64

def MAX_UNAUTHORIZED_CONNS_PER_ADDR : ℕ := 16

/-- `UnauthorizedShared`. -/
structure UnauthorizedShared where
  evicted : Bool
  notified : Bool

/-- `UnauthorizedID`: `shared` is the place of its cell. -/
structure UnauthorizedID where
  id : ℤ
  shared : ℕ
  deriving DecidableEq

variable {Addr : Type*} [DecidableEq Addr]

/-- An entry of `UNAUTHORIZED_CONNS`. -/
structure Entry (Addr : Type*) where
  id : ℤ
  ip : Addr
  shared : ℕ

/-- A guard that has not been dropped, with the address it was admitted from. -/
structure Live (Addr : Type*) where
  guard : UnauthorizedID
  ip : Addr

structure State (Addr : Type*) where
  conns : List (Entry Addr)
  cells : List UnauthorizedShared
  live : List (Live Addr)

def start : State Addr := ⟨[], [], []⟩

def isEvicted (cells : List UnauthorizedShared) (guard : UnauthorizedID) : Bool :=
  (cells[guard.shared]?).elim false UnauthorizedShared.evicted

/-- `evicted.swap(true)`, and `notify_one` when it was not set before. -/
def tellToGo (cells : List UnauthorizedShared) (shared : ℕ) : List UnauthorizedShared :=
  cells.modify shared fun cell => ⟨true, cell.notified || !cell.evicted⟩

def heldBy (ip : Addr) (conns : List (Entry Addr)) : ℕ :=
  (conns.filter fun entry => entry.ip = ip).length

/-- `admit_unauthorized`. -/
def admitUnauthorized (id : ℤ) (ip : Addr) (s : State Addr) :
    State Addr × Option UnauthorizedID :=
  if MAX_UNAUTHORIZED_CONNS_PER_ADDR ≤ heldBy ip s.conns then (s, none)
  else if MAX_UNAUTHORIZED_CONNS ≤ s.conns.length then
    match s.conns.head? with
    | some oldest => ({ s with cells := tellToGo s.cells oldest.shared }, none)
    | none => (s, none)
  else
    let guard : UnauthorizedID := ⟨id, s.cells.length⟩
    ({ s with
        conns := s.conns ++ [⟨id, ip, s.cells.length⟩]
        cells := s.cells ++ [⟨false, false⟩] }, some guard)

/-- `UnauthorizedID::drop`. -/
def dropGuard (guard : UnauthorizedID) (s : State Addr) : State Addr :=
  { s with conns := s.conns.filter fun entry => entry.id ≠ guard.id }

inductive Event (Addr : Type*)
  | admitUnauthorized (id : ℤ) (ip : Addr)
  | drop (guard : UnauthorizedID)

def step (s : State Addr) : Event Addr → Option (State Addr)
  | .admitUnauthorized id ip =>
    match admitUnauthorized id ip s with
    | (t, some guard) => some { t with live := t.live ++ [⟨guard, ip⟩] }
    | (t, none) => some t
  | .drop guard =>
    if s.live.any fun l => l.guard = guard then
      some { dropGuard guard s with live := s.live.filter fun l => l.guard ≠ guard }
    else none

/-- The ids of the connections that arrive in a history. -/
def arrivals : List (Event Addr) → List ℤ
  | [] => []
  | .admitUnauthorized id _ :: es => id :: arrivals es
  | .drop _ :: es => arrivals es

def entryOf (l : Live Addr) : Entry Addr := ⟨l.guard.id, l.ip, l.guard.shared⟩

/-- The entries are the live guards in order, no id occurs twice, the cells are
numbered by age, and only the oldest guard can have been told to go. -/
structure Inv (s : State Addr) : Prop where
  listed : s.conns = s.live.map entryOf
  ids : (s.live.map fun l => l.guard.id).Nodup
  ages : (s.live.map fun l => l.guard.shared).Pairwise (· < ·)
  cells : ∀ l ∈ s.live, l.guard.shared < s.cells.length
  total : s.live.length ≤ MAX_UNAUTHORIZED_CONNS
  share : ∀ ip, (s.live.filter fun l => l.ip = ip).length ≤ MAX_UNAUTHORIZED_CONNS_PER_ADDR
  oldest : ∀ l ∈ s.live.tail, isEvicted s.cells l.guard = false

theorem inv_start : Inv (start : State Addr) where
  listed := rfl
  ids := List.nodup_nil
  ages := List.Pairwise.nil
  cells := by simp [start]
  total := Nat.zero_le _
  share := fun _ => Nat.zero_le _
  oldest := by simp [start]

variable (cells : List UnauthorizedShared) (s t : State Addr) (id : ℤ) (ip : Addr) (e : Event Addr)
  (es : List (Event Addr)) (guard : UnauthorizedID)

theorem heldBy_map (live : List (Live Addr)) :
    heldBy ip (live.map entryOf) = (live.filter fun l => l.ip = ip).length := by
  rw [heldBy, List.filter_map, List.length_map]
  rfl

/-- What a call does: it refuses and changes nothing, refuses and tells the
oldest to go, or takes a place at the end. -/
theorem admit_cases (s t : State Addr) (hstep : step s (.admitUnauthorized id ip) = some t) :
    t = s ∨
    (∃ oldest, s.conns.head? = some oldest ∧ heldBy ip s.conns < MAX_UNAUTHORIZED_CONNS_PER_ADDR ∧
      t = { s with cells := tellToGo s.cells oldest.shared }) ∨
    (heldBy ip s.conns < MAX_UNAUTHORIZED_CONNS_PER_ADDR ∧
      s.conns.length < MAX_UNAUTHORIZED_CONNS ∧
      t = ⟨s.conns ++ [⟨id, ip, s.cells.length⟩], s.cells ++ [⟨false, false⟩],
        s.live ++ [⟨⟨id, s.cells.length⟩, ip⟩]⟩) := by
  simp only [step, admitUnauthorized] at hstep
  by_cases hshare : MAX_UNAUTHORIZED_CONNS_PER_ADDR ≤ heldBy ip s.conns
  · rw [if_pos hshare] at hstep
    exact Or.inl (Option.some.inj hstep).symm
  · rw [if_neg hshare] at hstep
    by_cases hfull : MAX_UNAUTHORIZED_CONNS ≤ s.conns.length
    · rw [if_pos hfull] at hstep
      cases hhead : s.conns.head? with
      | none =>
        rw [hhead] at hstep
        exact Or.inl (Option.some.inj hstep).symm
      | some oldest =>
        rw [hhead] at hstep
        exact Or.inr (Or.inl ⟨oldest, rfl, by omega, (Option.some.inj hstep).symm⟩)
    · rw [if_neg hfull] at hstep
      exact Or.inr (Or.inr ⟨by omega, by omega, (Option.some.inj hstep).symm⟩)

theorem drop_cases (s t : State Addr) (hstep : step s (.drop guard) = some t) :
    t = ⟨s.conns.filter fun entry => entry.id ≠ guard.id, s.cells,
      s.live.filter fun l => l.guard ≠ guard⟩ ∧ ∃ l ∈ s.live, l.guard = guard := by
  simp only [step] at hstep
  by_cases hany : (s.live.any fun l => l.guard = guard) = true
  · rw [if_pos hany] at hstep
    refine ⟨(Option.some.inj hstep).symm, ?_⟩
    simpa only [List.any_eq_true, decide_eq_true_eq] using hany
  · rw [if_neg hany] at hstep
    cases hstep

theorem isEvicted_append (cell : UnauthorizedShared)
    (guard : UnauthorizedID) (hguard : guard.shared < cells.length) :
    isEvicted (cells ++ [cell]) guard = isEvicted cells guard := by
  simp only [isEvicted, List.getElem?_append_left hguard]

theorem isEvicted_tellToGo_of_ne (shared : ℕ)
    (guard : UnauthorizedID) (hne : guard.shared ≠ shared) :
    isEvicted (tellToGo cells shared) guard = isEvicted cells guard := by
  simp only [isEvicted, tellToGo, List.getElem?_modify, if_neg (Ne.symm hne), id_map']

theorem isEvicted_last : isEvicted (cells ++ [⟨false, false⟩]) ⟨id, cells.length⟩ = false := by
  simp [isEvicted]

theorem shared_ne_of_mem_tail (hinv : Inv s) (oldest : Entry Addr)
    (holdest : s.conns.head? = some oldest) (l : Live Addr) (hl : l ∈ s.live.tail) :
    l.guard.shared ≠ oldest.shared := by
  cases hlive : s.live with
  | nil => simp [hlive] at hl
  | cons first rest =>
    have hages := hinv.ages
    rw [hinv.listed, hlive] at holdest
    rw [hlive] at hl hages
    have hfirst : entryOf first = oldest := by simpa using holdest
    have hlt : first.guard.shared < l.guard.shared :=
      (List.pairwise_cons.mp hages).1 l.guard.shared (List.mem_map_of_mem hl)
    have hcell : first.guard.shared = oldest.shared := congrArg Entry.shared hfirst
    omega

theorem inv_tellToGo (hinv : Inv s) (oldest : Entry Addr) (holdest : s.conns.head? = some oldest) :
    Inv { s with cells := tellToGo s.cells oldest.shared } :=
  { hinv with
    cells := by
      intro l hl
      simpa [tellToGo] using hinv.cells l hl
    oldest := by
      intro l hl
      have hne := shared_ne_of_mem_tail s hinv oldest holdest l hl
      rw [isEvicted_tellToGo_of_ne _ _ _ hne]
      exact hinv.oldest l hl }

theorem inv_taken (hinv : Inv s) (hid : id ∉ s.live.map fun l => l.guard.id)
    (hshare : heldBy ip s.conns < MAX_UNAUTHORIZED_CONNS_PER_ADDR)
    (htotal : s.conns.length < MAX_UNAUTHORIZED_CONNS) :
    Inv ⟨s.conns ++ [⟨id, ip, s.cells.length⟩], s.cells ++ [⟨false, false⟩],
      s.live ++ [⟨⟨id, s.cells.length⟩, ip⟩]⟩ where
  listed := by
    simp only [hinv.listed, List.map_append, List.map_cons, List.map_nil, entryOf]
  ids := by
    rw [List.map_append]
    refine List.Nodup.append hinv.ids (List.nodup_singleton _) ?_
    intro i hi hlast
    have hsame : i = id := by simpa using hlast
    exact hid (hsame ▸ hi)
  ages := by
    rw [List.map_append, List.pairwise_append]
    refine ⟨hinv.ages, List.pairwise_singleton _ _, ?_⟩
    intro a ha b hb
    obtain ⟨l, hl, rfl⟩ := List.mem_map.mp ha
    have hcell := hinv.cells l hl
    have hlast : b = s.cells.length := by simpa using hb
    omega
  cells := by
    intro l hl
    rw [List.length_append, List.length_singleton]
    rcases List.mem_append.mp hl with hold | hnew
    · have hcell := hinv.cells l hold
      omega
    · rw [List.mem_singleton.mp hnew]
      simp
  total := by
    rw [hinv.listed, List.length_map] at htotal
    rw [List.length_append, List.length_singleton]
    omega
  share := by
    intro other
    have hother := hinv.share other
    rw [hinv.listed, heldBy_map] at hshare
    by_cases hip : ip = other
    · subst hip
      simp only [List.filter_append, List.length_append, List.filter_cons, List.filter_nil,
        decide_true, if_true, List.length_singleton]
      omega
    · simp only [List.filter_append, List.filter_cons, List.filter_nil, hip, decide_false,
        Bool.false_eq_true, if_false, List.append_nil]
      exact hother
  oldest := by
    intro l hl
    have hmem : l ∈ s.live.tail ∨ l = ⟨⟨id, s.cells.length⟩, ip⟩ := by
      cases hlive : s.live with
      | nil => simp [hlive] at hl
      | cons first rest => simpa [hlive] using hl
    rcases hmem with hold | rfl
    · rw [isEvicted_append _ _ _ (hinv.cells l (List.mem_of_mem_tail hold))]
      exact hinv.oldest l hold
    · exact isEvicted_last s.cells id

omit [DecidableEq Addr] in
theorem filter_entries (live : List (Live Addr))
    (hids : (live.map fun l => l.guard.id).Nodup) (hmem : ∃ l ∈ live, l.guard = guard) :
    (live.map entryOf).filter (fun entry => entry.id ≠ guard.id) =
      (live.filter fun l => l.guard ≠ guard).map entryOf := by
  obtain ⟨held, hheld, rfl⟩ := hmem
  rw [List.filter_map]
  congr 1
  apply List.filter_congr
  intro l hl
  have hsame : l.guard.id = held.guard.id → l.guard = held.guard := by
    intro hid
    rw [List.inj_on_of_nodup_map hids hl hheld hid]
  by_cases hguard : l.guard = held.guard
  · simp [entryOf, hguard]
  · have hid : l.guard.id ≠ held.guard.id := fun h => hguard (hsame h)
    simp [entryOf, hguard, hid]

theorem mem_tail_filter {α : Type*} (p : α → Bool) (l : List α) (x : α)
    (hx : x ∈ (l.filter p).tail) : x ∈ l.tail := by
  cases l with
  | nil => simp at hx
  | cons first rest =>
    rw [List.filter_cons] at hx
    split at hx
    · exact (List.mem_filter.mp hx).1
    · exact (List.mem_filter.mp (List.mem_of_mem_tail hx)).1

theorem inv_dropped (hinv : Inv s) (hmem : ∃ l ∈ s.live, l.guard = guard) :
    Inv ⟨s.conns.filter fun entry => entry.id ≠ guard.id, s.cells,
      s.live.filter fun l => l.guard ≠ guard⟩ where
  listed := by
    rw [hinv.listed]
    exact filter_entries guard s.live hinv.ids hmem
  ids := (List.filter_sublist.map _).nodup hinv.ids
  ages := hinv.ages.sublist (List.filter_sublist.map _)
  cells := fun l hl => hinv.cells l (List.mem_filter.mp hl).1
  total := Nat.le_trans (List.length_filter_le _ _) hinv.total
  share := by
    intro ip
    rw [List.filter_filter]
    refine Nat.le_trans ?_ (hinv.share ip)
    have hsub : ∀ l : List (Live Addr),
        (l.filter fun l => decide (l.ip = ip) && decide (l.guard ≠ guard)).length ≤
          (l.filter fun l => l.ip = ip).length := by
      intro l
      rw [← List.countP_eq_length_filter, ← List.countP_eq_length_filter]
      apply List.countP_mono_left
      intro x _ hx
      exact (Bool.and_eq_true_iff.mp hx).1
    exact hsub s.live
  oldest := fun l hl => hinv.oldest l (mem_tail_filter _ _ _ hl)

theorem inv_step (hinv : Inv s)
    (hfresh : ∀ id ip, e = .admitUnauthorized id ip → id ∉ s.live.map fun l => l.guard.id)
    (hstep : step s e = some t) : Inv t := by
  cases e with
  | admitUnauthorized id ip =>
    rcases admit_cases id ip s t hstep with rfl | ⟨oldest, holdest, -, rfl⟩ | ⟨hshare, htotal, rfl⟩
    · exact hinv
    · exact inv_tellToGo s hinv oldest holdest
    · exact inv_taken s id ip hinv (hfresh id ip rfl) hshare htotal
  | drop guard =>
    obtain ⟨rfl, hmem⟩ := drop_cases guard s t hstep
    exact inv_dropped s guard hinv hmem

/-- A step brings in no id but that of the connection that arrives. -/
theorem ids_step (hstep : step s e = some t) (id : ℤ) (hid : id ∈ t.live.map fun l => l.guard.id) :
    (id ∈ s.live.map fun l => l.guard.id) ∨ ∃ ip, e = .admitUnauthorized id ip := by
  cases e with
  | admitUnauthorized arriving ip =>
    rcases admit_cases arriving ip s t hstep with rfl | ⟨oldest, -, -, rfl⟩ | ⟨-, -, rfl⟩
    · exact Or.inl hid
    · exact Or.inl hid
    · rw [List.map_append] at hid
      rcases List.mem_append.mp hid with hold | hnew
      · exact Or.inl hold
      · rw [List.map_cons, List.map_nil, List.mem_singleton] at hnew
        exact Or.inr ⟨ip, by rw [hnew]⟩
  | drop guard =>
    obtain ⟨rfl, -⟩ := drop_cases guard s t hstep
    obtain ⟨l, hl, rfl⟩ := List.mem_map.mp hid
    exact Or.inl (List.mem_map_of_mem (List.mem_filter.mp hl).1)

omit [DecidableEq Addr] in
theorem mem_arrivals_head : id ∈ arrivals (.admitUnauthorized id ip :: es) := List.mem_cons_self ..

omit [DecidableEq Addr] in
theorem arrivals_tail : (arrivals es).Sublist (arrivals (e :: es)) := by
  cases e with
  | admitUnauthorized id ip => exact List.sublist_cons_self _ _
  | drop guard => exact List.Sublist.refl _

/-- When no two arriving connections have one id, the invariant holds at the end
of every history. The induction carries that the live ids do not arrive again. -/
theorem inv_exec (hinv : Inv s) (hids : (arrivals es).Nodup)
    (hlive : ∀ id ∈ arrivals es, id ∉ s.live.map fun l => l.guard.id)
    (hexec : exec step s es = some t) : Inv t := by
  induction es generalizing s with
  | nil =>
    have heq : s = t := by simpa using hexec
    exact heq ▸ hinv
  | cons e es ih =>
    obtain ⟨u, hu, hrest⟩ := (exec_cons step s t e es).mp hexec
    have hinvu : Inv u := by
      refine inv_step s u e hinv ?_ hu
      rintro id ip rfl
      exact hlive id (mem_arrivals_head id ip es)
    refine ih u hinvu (hids.sublist (arrivals_tail e es)) ?_ hrest
    intro id hid hmem
    rcases ids_step s u e hu id hmem with hold | ⟨ip, rfl⟩
    · exact hlive id ((arrivals_tail e es).subset hid) hold
    · exact (List.nodup_cons.mp hids).1 hid

theorem evicted_at_most_one (hinv : Inv s) :
    (s.live.filter fun l => isEvicted s.cells l.guard).length ≤ 1 := by
  have holdest := hinv.oldest
  cases hlive : s.live with
  | nil => simp
  | cons first rest =>
    rw [hlive] at holdest
    have hrest : rest.filter (fun l => isEvicted s.cells l.guard) = [] := by
      rw [List.filter_eq_nil_iff]
      intro l hl
      simp [holdest l hl]
    rw [List.filter_cons, hrest]
    split <;> simp

/-- In every history of arrivals with distinct ids and drops, the bounds hold for the live guards,
the registry lists them in the order of their admission, at most one of them has been told to go,
and an arrival from an address that holds its share is refused and changes nothing. -/
theorem registry_bounded (t : State Addr) (es : List (Event Addr)) (hids : (arrivals es).Nodup)
    (hexec : exec step start es = some t) :
    t.live.length ≤ MAX_UNAUTHORIZED_CONNS ∧
    (∀ ip, (t.live.filter fun l => l.ip = ip).length ≤ MAX_UNAUTHORIZED_CONNS_PER_ADDR) ∧
    t.conns = t.live.map entryOf ∧
    (t.conns.map Entry.shared).Pairwise (· < ·) ∧
    (t.live.filter fun l => isEvicted t.cells l.guard).length ≤ 1 ∧
    (∀ id ip, (t.live.filter fun l => l.ip = ip).length = MAX_UNAUTHORIZED_CONNS_PER_ADDR →
      admitUnauthorized id ip t = (t, none)) := by
  have hinv := inv_exec start t es inv_start hids (by simp [start]) hexec
  refine ⟨hinv.total, hinv.share, hinv.listed, ?_, evicted_at_most_one t hinv, ?_⟩
  · rw [hinv.listed, List.map_map]
    exact hinv.ages
  · intro id ip hheld
    unfold admitUnauthorized
    rw [if_pos]
    rw [hinv.listed, heldBy_map]
    omega

/-- One address takes its share, is refused once more, and takes the place of
a connection that has gone. -/
def flood : List (Event ℕ) :=
  (List.range 17).map (fun i : ℕ => .admitUnauthorized (Int.ofNat i) 7) ++ [.drop ⟨0, 0⟩,
    .admitUnauthorized 17 7]

theorem registry_bounded_flood :
    ∃ t : State ℕ, exec step start flood = some t ∧ t.live.length = 16 ∧
      t.conns = t.live.map entryOf := by
  have hrun : (exec step start flood).map (fun t => t.live.length) = some 16 := by
    decide
  obtain ⟨t, ht, hlength⟩ := Option.map_eq_some_iff.mp hrun
  exact ⟨t, ht, hlength, (registry_bounded t flood (by decide) ht).2.2.1⟩

end ClantoDesk.UnauthorizedRegistry
