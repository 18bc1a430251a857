import ClantoDesk.Runs
import ClantoDesk.Slot
import Mathlib.Algebra.Order.Ring.Int

/-!
The worker that refreshes the display cache, `schedule_drm_cache_refresh` in src/ipc/drm.rs. A call
sets `PENDING` and tries to take `RUNNING`; the call that takes it starts a thread, which enumerates
the displays until no request is left and gives `RUNNING` back. Each access to a shared variable is
a step, and the steps of all calls and threads come in any order.
-/
namespace ClantoDesk.CacheRefresh

open Runs Slot

-- what is known of a display
variable {D : Type} [DecidableEq D]

inductive Phase (D : Type) where
  | outside
  | announced
  | starting
  | top
  | cleared
  | enumerating
  | enumerated (fresh : List D)
  | changed
  | checking
  | leaving
  | released
  | retaking
  | returned
  deriving DecidableEq

def Phase.holds : Phase D → Bool
  | .starting | .top | .cleared | .enumerating | .enumerated _ | .changed | .checking
  | .leaving => true
  | .outside | .announced | .released | .retaking | .returned => false

def Phase.active : Phase D → Bool
  | .released | .retaking => true
  | p => p.holds

/-- The shared variables, and the phase of every call. -/
structure State (D : Type) where
  pending : Bool
  running : Bool
  cache : List D
  generation : UInt64
  phase : ℕ → Phase D

def start : State D := ⟨false, false, [], 0, fun _ => .outside⟩

inductive Event (D : Type) where
  | announce (i : ℕ)
  | swap (i : ℕ)
  | spawn (i : ℕ)
  | clear (i : ℕ)
  | enumerate (i : ℕ)
  | enumerated (i : ℕ) (result : Option (List D))
  | lock (i : ℕ) (fresh : List D)
  | fetchAdd (i : ℕ)
  | check (i : ℕ)
  | release (i : ℕ)
  | recheck (i : ℕ)
  | retake (i : ℕ)

def Event.call : Event D → ℕ
  | .announce i | .swap i | .spawn i | .clear i | .enumerate i | .enumerated i _ | .lock i _
  | .fetchAdd i | .check i | .release i | .recheck i | .retake i => i

namespace State

def goto (s : State D) (i : ℕ) (p : Phase D) : State D :=
  { s with phase := Function.update s.phase i p }

def inPhase (s : State D) (i : ℕ) (p : Phase D) (t : State D) : Option (State D) :=
  if s.phase i = p then some t else none

@[simp] theorem inPhase_eq_some (s t u : State D) (i : ℕ) (p : Phase D) :
    s.inPhase i p t = some u ↔ s.phase i = p ∧ t = u := by
  simp [inPhase]

end State

def step (s : State D) : Event D → Option (State D)
  | .announce i => s.inPhase i .outside ({ s with pending := true }.goto i .announced)
  | .swap i =>
    s.inPhase i .announced
      (if s.running then s.goto i .returned else { s with running := true }.goto i .starting)
  | .spawn i => s.inPhase i .starting (s.goto i .top)
  | .clear i => s.inPhase i .top ({ s with pending := false }.goto i .cleared)
  | .enumerate i => s.inPhase i .cleared (s.goto i .enumerating)
  -- a panic is caught, and counts as no displays
  | .enumerated i result => s.inPhase i .enumerating (s.goto i (.enumerated (result.getD [])))
  | .lock i fresh =>
    s.inPhase i (.enumerated fresh)
      (if s.cache ≠ fresh then { s with cache := fresh }.goto i .changed else s.goto i .checking)
  | .fetchAdd i =>
    s.inPhase i .changed ({ s with generation := s.generation + 1 }.goto i .checking)
  | .check i => s.inPhase i .checking (s.goto i (if s.pending then .top else .leaving))
  | .release i => s.inPhase i .leaving ({ s with running := false }.goto i .released)
  | .recheck i => s.inPhase i .released (s.goto i (if s.pending then .retaking else .returned))
  | .retake i =>
    s.inPhase i .retaking
      (if s.running then s.goto i .returned else { s with running := true }.goto i .top)

/-! ### The slot -/

/-- At most one worker has the slot, and `RUNNING` is set while one has it. -/
def Single (s : State D) : Prop := Kept (fun p : Phase D => p.holds = true) s.running s.phase

omit [DecidableEq D] in
theorem single_start : Single (start : State D) :=
  kept_start _ _ fun _ => Bool.false_ne_true

variable (es : List (Event D)) (s : State D) (e : Event D) (t : State D) (i j : ℕ) (p : Phase D)

omit [DecidableEq D] in
/-- Only the exchange that finds `RUNNING` clear takes the slot. -/
theorem Single.exchange (hsingle : Single s)
    (hi : (s.phase i).holds = false) (hp : p.holds = true) :
    Single (if s.running then s.goto i .returned else { s with running := true }.goto i p) := by
  by_cases hrunning : s.running = true
  · rw [if_pos hrunning]
    exact hsingle.goto _ _ _ i .returned (by rw [hi]; rfl)
  · rw [if_neg hrunning]
    exact hsingle.take _ _ _ i p hrunning hp

theorem single_step (hsingle : Single s) (hstep : step s e = some t) : Single t := by
  cases e with
  | swap i =>
    obtain ⟨hphase, rfl⟩ := (State.inPhase_eq_some ..).mp hstep
    exact hsingle.exchange s i .starting (by rw [hphase]; rfl) rfl
  | retake i =>
    obtain ⟨hphase, rfl⟩ := (State.inPhase_eq_some ..).mp hstep
    exact hsingle.exchange s i .top (by rw [hphase]; rfl) rfl
  | release i =>
    obtain ⟨hphase, rfl⟩ := (State.inPhase_eq_some ..).mp hstep
    exact hsingle.release _ _ _ i .released (by simp [hphase, Phase.holds]) (by simp [Phase.holds])
  | lock i fresh =>
    obtain ⟨hphase, rfl⟩ := (State.inPhase_eq_some ..).mp hstep
    by_cases hcache : s.cache ≠ fresh
    · rw [if_pos hcache]
      exact hsingle.goto _ _ _ i .changed (by simp [hphase, Phase.holds])
    · rw [if_neg hcache]
      exact hsingle.goto _ _ _ i .checking (by simp [hphase, Phase.holds])
  | check i =>
    obtain ⟨hphase, rfl⟩ := (State.inPhase_eq_some ..).mp hstep
    exact hsingle.goto _ _ _ i _ (by cases s.pending <;> simp [hphase, Phase.holds])
  | recheck i =>
    obtain ⟨hphase, rfl⟩ := (State.inPhase_eq_some ..).mp hstep
    exact hsingle.goto _ _ _ i _ (by cases s.pending <;> simp [hphase, Phase.holds])
  | announce i | spawn i | clear i | enumerate i | enumerated i result | fetchAdd i =>
    obtain ⟨hphase, rfl⟩ := (State.inPhase_eq_some ..).mp hstep
    exact hsingle.goto _ _ _ i _ (by simp [hphase, Phase.holds])

theorem single_exec (hexec : exec step start es = some s) : Single s :=
  invariant_of_exec step Single single_step start s es single_start hexec

/-! ### The cache and its generation -/

theorem writer (hstep : step s e = some t) :
    (t.cache = s.cache ∧ t.generation = s.generation ∧
        s.phase e.call ≠ .changed ∧ t.phase e.call ≠ .changed) ∨
      (t.cache ≠ s.cache ∧ t.generation = s.generation ∧
        (∃ fresh, s.phase e.call = .enumerated fresh) ∧ t.phase e.call = .changed) ∨
      (t.cache = s.cache ∧ t.generation = s.generation + 1 ∧
        s.phase e.call = .changed ∧ t.phase e.call ≠ .changed) := by
  cases e with
  | lock i fresh =>
    obtain ⟨hphase, rfl⟩ := (State.inPhase_eq_some ..).mp hstep
    by_cases hcache : s.cache ≠ fresh
    · refine Or.inr (Or.inl ?_)
      rw [if_pos hcache]
      exact ⟨hcache.symm, rfl, ⟨fresh, hphase⟩, by simp [Event.call, State.goto]⟩
    · refine Or.inl ?_
      rw [if_neg hcache]
      exact ⟨rfl, rfl, by simp [Event.call, hphase], by simp [Event.call, State.goto]⟩
  | fetchAdd i =>
    obtain ⟨hphase, rfl⟩ := (State.inPhase_eq_some ..).mp hstep
    exact Or.inr (Or.inr ⟨rfl, rfl, hphase, by simp [Event.call, State.goto]⟩)
  | swap i | retake i =>
    obtain ⟨hphase, rfl⟩ := (State.inPhase_eq_some ..).mp hstep
    refine Or.inl ?_
    split
    · exact ⟨rfl, rfl, by simp [Event.call, hphase], by simp [Event.call, State.goto]⟩
    · exact ⟨rfl, rfl, by simp [Event.call, hphase], by simp [Event.call, State.goto]⟩
  | check i | recheck i =>
    obtain ⟨hphase, rfl⟩ := (State.inPhase_eq_some ..).mp hstep
    exact Or.inl ⟨rfl, rfl, by simp [Event.call, hphase],
      by cases s.pending <;> simp [Event.call, State.goto]⟩
  | announce i | spawn i | clear i | enumerate i | enumerated i result | release i =>
    obtain ⟨hphase, rfl⟩ := (State.inPhase_eq_some ..).mp hstep
    exact Or.inl ⟨rfl, rfl, by simp [Event.call, hphase], by simp [Event.call, State.goto]⟩

omit [DecidableEq D] in
theorem phase_goto_of_ne (hj : j ≠ i) : (s.goto i p).phase j = s.phase j := by
  simp [State.goto, hj]

theorem phase_of_ne (hstep : step s e = some t) (hi : i ≠ e.call) : t.phase i = s.phase i := by
  cases e with
  | swap j | retake j | lock j fresh =>
    obtain ⟨-, rfl⟩ := (State.inPhase_eq_some ..).mp hstep
    split
    · exact phase_goto_of_ne _ j i _ hi
    · exact phase_goto_of_ne _ j i _ hi
  | announce j | spawn j | clear j | enumerate j | enumerated j result | fetchAdd j | check j
  | release j | recheck j =>
    obtain ⟨-, rfl⟩ := (State.inPhase_eq_some ..).mp hstep
    exact phase_goto_of_ne _ j i _ hi

/-- A call that takes no step is not there. -/
theorem phase_of_exec
    (hexec : exec step start es = some s) (hi : ∀ e ∈ es, i ≠ e.call) : s.phase i = .outside := by
  refine invariant_of_forall (fun e => i ≠ e.call) step (fun s => s.phase i = .outside) ?_ start s
    es rfl hi hexec
  intro s e t hne hphase hstep
  rw [phase_of_ne s e t i hstep hne]
  exact hphase

def changes : State D → List (Event D) → ℕ
  | _, [] => 0
  | s, e :: es =>
    match step s e with
    | none => 0
    | some t => (if t.cache = s.cache then 0 else 1) + changes t es

theorem changes_concat (u : State D) (es : List (Event D)) (e : Event D)
    (hexec : exec step s es = some t) (hstep : step t e = some u) :
    changes s (es ++ [e]) = changes s es + if u.cache = t.cache then 0 else 1 := by
  induction es generalizing s with
  | nil =>
    obtain rfl : s = t := by simpa using hexec
    simp [changes, hstep]
  | cons f es ih =>
    obtain ⟨v, hv, hrest⟩ := (exec_cons step s t f es).mp hexec
    simp only [List.cons_append, changes, hv, ih v hrest, Nat.add_assoc]

/-- The generation counts the changes, one of them when its addition is still to come. -/
structure Counted (es : List (Event D)) (s : State D) : Prop where
  done : (∀ i, s.phase i ≠ .changed) → s.generation = UInt64.ofNat (changes start es)
  due : ∀ i, s.phase i = .changed → s.generation + 1 = UInt64.ofNat (changes start es)

omit [DecidableEq D] in
/-- Two workers are not both between taking the slot and releasing it. -/
theorem Single.eq_call (hsingle : Single s)
    (hcall : (s.phase e.call).holds = true) (hi : s.phase i = .changed) : i = e.call :=
  hsingle.unique i e.call (by rw [hi]; rfl) hcall

theorem counted_step
    (hexec : exec step start es = some s) (hcounted : Counted es s) (hstep : step s e = some t) :
    Counted (es ++ [e]) t := by
  have hsingle := single_exec es s hexec
  have hother := fun i => phase_of_ne s e t i hstep
  have hchanges := changes_concat start s t es e hexec hstep
  rcases writer s e t hstep with
    ⟨hcache, hgen, hwas, hphase⟩ | ⟨hcache, hgen, ⟨fresh, hwas⟩, hphase⟩ |
      ⟨hcache, hgen, hwas, hphase⟩
  · rw [if_pos hcache, Nat.add_zero] at hchanges
    have hsame : ∀ i, t.phase i = .changed ↔ s.phase i = .changed := by
      intro i
      by_cases hi : i = e.call
      · rw [hi]
        exact ⟨fun h => absurd h hphase, fun h => absurd h hwas⟩
      · rw [hother i hi]
    refine ⟨fun hnone => ?_, fun i hi => ?_⟩
    · rw [hgen, hchanges]
      exact hcounted.done fun i hi => hnone i ((hsame i).mpr hi)
    · rw [hgen, hchanges]
      exact hcounted.due i ((hsame i).mp hi)
  · -- no other worker owes an addition, since this one has the slot
    rw [if_neg hcache] at hchanges
    have hnone : ∀ i, s.phase i ≠ .changed := by
      intro i hi
      rw [hsingle.eq_call s e i (by rw [hwas]; rfl) hi, hwas] at hi
      cases hi
    refine ⟨fun hall => absurd hphase (hall e.call), fun i _ => ?_⟩
    rw [hgen, hchanges, UInt64.ofNat_add, hcounted.done hnone]
    rfl
  · rw [if_pos hcache, Nat.add_zero] at hchanges
    refine ⟨fun _ => ?_, fun i hi => ?_⟩
    · rw [hgen, hchanges]
      exact hcounted.due e.call hwas
    · have hne : i ≠ e.call := by
        rintro rfl
        exact hphase hi
      rw [hother i hne] at hi
      exact absurd (hsingle.eq_call s e i (by rw [hwas]; rfl) hi) hne

theorem counted_exec (hexec : exec step start es = some s) : Counted es s := by
  refine history_of_exec step Counted start ⟨fun _ => rfl, ?_⟩ counted_step es s hexec
  intro i hi
  cases hi

theorem holds_of_write (hstep : step s e = some t)
    (hwrite : t.cache ≠ s.cache ∨ t.generation ≠ s.generation) :
    (s.phase e.call).holds = true := by
  rcases writer s e t hstep with ⟨hcache, hgen, -⟩ | ⟨-, -, ⟨fresh, hwas⟩, -⟩ | ⟨-, -, hwas, -⟩
  · rcases hwrite with h | h
    · exact absurd hcache h
    · exact absurd hgen h
  · rw [hwas]
    rfl
  · rw [hwas]
    rfl

/-! ### The requests -/

/-- Request `i` was made, and no enumeration has begun since it was announced. -/
def Unserved (i : ℕ) (es : List (Event D)) : Prop :=
  Since (fun e => e = .announce i) (fun e => ∀ w, e ≠ .enumerate w) es

/-- No worker is active or being started. -/
def Quiet (s : State D) : Prop := ∀ w, (s.phase w).active = false

/-- What an unserved request waits for: a worker that is about to enumerate, or one that will
still look at `PENDING`, unless its own call is yet to try the slot. -/
def Awaited (i : ℕ) (s : State D) : Prop :=
  (∃ w, s.phase w = .cleared) ∨
    s.pending = true ∧ (s.phase i = .announced ∨ ∃ w, (s.phase w).active = true)

omit [DecidableEq D] in
/-- Whoever has the slot will look at `PENDING`. -/
theorem Single.exists_active (hsingle : Single s) (hrunning : s.running = true) :
    ∃ w, (s.phase w).holds = true ∧ (s.phase w).active = true := by
  obtain ⟨w, hw⟩ := hsingle.holder hrunning
  refine ⟨w, hw, ?_⟩
  cases hphase : s.phase w <;> simp_all [Phase.holds, Phase.active]

omit [DecidableEq D] in
/-- A worker goes on: those that await it may still do so. -/
theorem Awaited.goto (hawaited : Awaited i s)
    (hphase : t.phase = (s.goto j p).phase) (hpending : s.pending = true → t.pending = true)
    (hj : s.phase j ≠ .cleared) (hcall : s.phase j ≠ .announced)
    (hp : (s.phase j).active = true → p.active = true) : Awaited i t := by
  rw [Awaited, hphase]
  rcases hawaited with hcleared | ⟨hset, hcalling | hactive⟩
  · exact Or.inl (exists_update s.phase j p (· = .cleared) hcleared (fun h => absurd h hj))
  · refine Or.inr ⟨hpending hset, Or.inl ?_⟩
    rw [phase_goto_of_ne s j i p (by rintro rfl; exact hcall hcalling)]
    exact hcalling
  · exact Or.inr ⟨hpending hset, Or.inr (exists_update s.phase j p (·.active = true) hactive hp)⟩

omit [DecidableEq D] in
/-- A call or a worker that finds the slot taken ends: the one that has it is left to look. -/
theorem Awaited.returned (hsingle : Single s) (hawaited : Awaited i s)
    (hrunning : s.running = true) (hj : (s.phase j).holds = false) :
    Awaited i (s.goto j .returned) := by
  obtain ⟨w, hw, hactive⟩ := hsingle.exists_active s hrunning
  have hne : w ≠ j := by
    rintro rfl
    rw [hw] at hj
    cases hj
  rcases hawaited with hcleared | ⟨hset, -⟩
  · refine Or.inl (exists_update s.phase j .returned (· = .cleared) hcleared fun h => ?_)
    rw [h] at hj
    cases hj
  · exact Or.inr ⟨hset, Or.inr ⟨w, by rwa [phase_goto_of_ne s j w .returned hne]⟩⟩

theorem awaited_step (hsingle : Single s)
    (hawaited : Awaited i s) (hne : ∀ w, e ≠ .enumerate w) (hstep : step s e = some t) :
    Awaited i t := by
  cases e with
  | enumerate j => exact absurd rfl (hne j)
  | announce j =>
    obtain ⟨hphase, rfl⟩ := (State.inPhase_eq_some ..).mp hstep
    exact hawaited.goto s _ i j .announced rfl (fun _ => rfl) (by simp [hphase])
      (by simp [hphase]) (by simp [hphase, Phase.active, Phase.holds])
  | clear j =>
    obtain ⟨hphase, rfl⟩ := (State.inPhase_eq_some ..).mp hstep
    exact Or.inl ⟨j, by simp [State.goto]⟩
  | swap j =>
    obtain ⟨hphase, rfl⟩ := (State.inPhase_eq_some ..).mp hstep
    split
    next hrunning => exact hawaited.returned s i j hsingle hrunning (by rw [hphase]; rfl)
    next hrunning =>
      rcases hawaited with hcleared | ⟨hset, -⟩
      · exact Or.inl (exists_update s.phase j .starting (· = .cleared) hcleared (by simp [hphase]))
      · exact Or.inr ⟨hset, Or.inr ⟨j, by simp [State.goto, Phase.active, Phase.holds]⟩⟩
  | retake j =>
    obtain ⟨hphase, rfl⟩ := (State.inPhase_eq_some ..).mp hstep
    split
    next hrunning => exact hawaited.returned s i j hsingle hrunning (by rw [hphase]; rfl)
    next hrunning =>
      exact hawaited.goto s _ i j .top rfl id (by simp [hphase]) (by simp [hphase])
        (fun _ => rfl)
  | recheck j =>
    obtain ⟨hphase, rfl⟩ := (State.inPhase_eq_some ..).mp hstep
    cases hpending : s.pending with
    | true =>
      exact hawaited.goto s _ i j .retaking rfl id (by simp [hphase]) (by simp [hphase])
        (fun _ => rfl)
    | false =>
      -- nothing is pending: only a worker about to enumerate can be awaited
      rcases hawaited with hcleared | ⟨hset, -⟩
      · exact Or.inl (exists_update s.phase j .returned (· = .cleared) hcleared (by simp [hphase]))
      · rw [hpending] at hset
        cases hset
  | lock j fresh =>
    obtain ⟨hphase, rfl⟩ := (State.inPhase_eq_some ..).mp hstep
    split
    · exact hawaited.goto s _ i j .changed rfl id (by simp [hphase]) (by simp [hphase])
        (fun _ => rfl)
    · exact hawaited.goto s _ i j .checking rfl id (by simp [hphase]) (by simp [hphase])
        (fun _ => rfl)
  | check j =>
    obtain ⟨hphase, rfl⟩ := (State.inPhase_eq_some ..).mp hstep
    exact hawaited.goto s _ i j _ rfl id (by simp [hphase]) (by simp [hphase])
      (by cases s.pending <;> exact fun _ => rfl)
  | spawn j | enumerated j result | fetchAdd j | release j =>
    obtain ⟨hphase, rfl⟩ := (State.inPhase_eq_some ..).mp hstep
    exact hawaited.goto s _ i j _ rfl id (by simp [hphase]) (by simp [hphase]) (fun _ => rfl)

theorem awaited_exec (hexec : exec step start es = some s)
    (i : ℕ) (hunserved : Unserved i es) : Awaited i s := by
  refine history_of_exec step (fun es s => ∀ i, Unserved i es → Awaited i s) start ?_ ?_ es s
    hexec i hunserved
  · intro i h
    exact absurd h (not_since_nil _ _)
  · intro es s e t hs ih hstep i h
    rcases (since_concat ..).mp h with rfl | ⟨hbefore, hne⟩
    · obtain ⟨-, rfl⟩ := (State.inPhase_eq_some ..).mp hstep
      exact Or.inr ⟨rfl, Or.inl (by simp [State.goto])⟩
    · exact awaited_step s e t i (single_exec es s hs) (ih i hbefore) hne hstep

/-- No wake-up is lost: while no worker is active or being started, every request whose call has
tried the slot was followed by the beginning of an enumeration. -/
theorem served_of_quiet (hexec : exec step start es = some s)
    (hquiet : Quiet s) (i : ℕ) (hmade : s.phase i ≠ .announced) : ¬ Unserved i es := by
  intro hunserved
  rcases awaited_exec es s hexec i hunserved with ⟨w, hw⟩ | ⟨-, hcalling | ⟨w, hw⟩⟩
  · have hnot := hquiet w
    rw [hw] at hnot
    cases hnot
  · exact hmade hcalling
  · rw [hquiet w] at hw
    cases hw

end ClantoDesk.CacheRefresh
