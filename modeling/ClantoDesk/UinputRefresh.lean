import ClantoDesk.CacheRefresh

/-!
The worker that refreshes the uinput resolution after a hotplug, `recv_thread` and
`UinputRefreshGuard` in src/server/drm_capturer.rs. A request is counted in `UINPUT_REFRESH_GEN`
before `UINPUT_REFRESH_BUSY` is tried; the worker updates until the count is the one that it
served. Unlike the worker of the display cache it may end early, when its runtime cannot be built
or when an update panics: then the guard gives the slot back.
-/
namespace ClantoDesk.UinputRefresh

open Runs Slot

inductive Phase where
  | outside
  | announced
  | starting
  | building
  | looping (served : UInt64)
  | loaded (g : UInt64)
  | updating (served : UInt64)
  | leaving (served : UInt64)
  | released (served : UInt64)
  | retaking (served : UInt64)
  | failed
  | returned
  deriving DecidableEq

/-- The slot is taken, by a request for the thread that it starts or by the thread itself. -/
def Phase.holds : Phase → Bool
  | .starting | .building | .looping _ | .loaded _ | .updating _ | .leaving _ | .failed => true
  | .outside | .announced | .released _ | .retaking _ | .returned => false

def Phase.active : Phase → Bool
  | .starting | .building | .looping _ | .loaded _ | .updating _ | .leaving _ | .failed => true
  | .released _ | .retaking _ => true
  | .outside | .announced | .returned => false

/-- The shared variables, and the phase of every request. -/
structure State where
  gen : UInt64
  busy : Bool
  phase : ℕ → Phase

def start : State := ⟨0, false, fun _ => .outside⟩

inductive Event where
  | announce (i : ℕ)
  | swap (i : ℕ)
  | spawn (i : ℕ)
  | build (i : ℕ) (ok : Bool)
  | load (i : ℕ) (served : UInt64)
  | update (i : ℕ) (g : UInt64)
  | updated (i : ℕ) (served : UInt64) (panicked : Bool)
  | release (i : ℕ) (served : UInt64)
  | recheck (i : ℕ) (served : UInt64)
  | retake (i : ℕ) (served : UInt64)
  | drop (i : ℕ)

def Event.call : Event → ℕ
  | .announce i | .swap i | .spawn i | .build i _ | .load i _ | .update i _ | .updated i _ _
  | .release i _ | .recheck i _ | .retake i _ | .drop i => i

namespace State

def goto (s : State) (i : ℕ) (p : Phase) : State :=
  { s with phase := Function.update s.phase i p }

def inPhase (s : State) (i : ℕ) (p : Phase) (t : State) : Option State :=
  if s.phase i = p then some t else none

@[simp] theorem inPhase_eq_some (s t u : State) (i : ℕ) (p : Phase) :
    s.inPhase i p t = some u ↔ s.phase i = p ∧ t = u := by
  simp [inPhase]

end State

def step (s : State) : Event → Option State
  | .announce i => s.inPhase i .outside ({ s with gen := s.gen + 1 }.goto i .announced)
  | .swap i =>
    s.inPhase i .announced
      (if s.busy then s.goto i .returned else { s with busy := true }.goto i .starting)
  | .spawn i => s.inPhase i .starting (s.goto i .building)
  | .build i ok => s.inPhase i .building (s.goto i (if ok then .looping 0 else .failed))
  | .load i served =>
    s.inPhase i (.looping served)
      (s.goto i (if s.gen ≠ served then .loaded s.gen else .leaving served))
  | .update i g => s.inPhase i (.loaded g) (s.goto i (.updating g))
  -- a panic unwinds the thread, whose guard is dropped
  | .updated i served panicked =>
    s.inPhase i (.updating served) (s.goto i (if panicked then .failed else .looping served))
  | .release i served =>
    s.inPhase i (.leaving served) ({ s with busy := false }.goto i (.released served))
  | .recheck i served =>
    s.inPhase i (.released served)
      (s.goto i (if s.gen = served then .returned else .retaking served))
  | .retake i served =>
    s.inPhase i (.retaking served)
      (if s.busy then s.goto i .returned else { s with busy := true }.goto i (.looping served))
  | .drop i => s.inPhase i .failed ({ s with busy := false }.goto i .returned)

variable (i j : ℕ) (es : List Event) (s : State) (e : Event) (t : State)

theorem phase_goto_of_ne (i j : ℕ) (p : Phase) (hj : j ≠ i) : (s.goto i p).phase j = s.phase j := by
  simp [State.goto, hj]

theorem phase_of_ne (i : ℕ) (hstep : step s e = some t)
    (hi : i ≠ e.call) : t.phase i = s.phase i := by
  cases e with
  | swap j | retake j served =>
    obtain ⟨-, rfl⟩ := (State.inPhase_eq_some ..).mp hstep
    split
    · exact phase_goto_of_ne _ j i _ hi
    · exact phase_goto_of_ne _ j i _ hi
  | announce j | spawn j | build j ok | load j served | update j g | updated j served panicked
  | release j served | recheck j served | drop j =>
    obtain ⟨-, rfl⟩ := (State.inPhase_eq_some ..).mp hstep
    exact phase_goto_of_ne _ j i _ hi

/-- A request that takes no step is not there. -/
theorem phase_of_exec (i : ℕ)
    (hexec : exec step start es = some s) (hi : ∀ e ∈ es, i ≠ e.call) : s.phase i = .outside := by
  refine invariant_of_forall (fun e => i ≠ e.call) step (fun s => s.phase i = .outside) ?_ start s
    es rfl hi hexec
  intro s e t hne hphase hstep
  rw [phase_of_ne s e t i hstep hne]
  exact hphase

/-! ### The slot -/

/-- At most one worker has the slot, and `UINPUT_REFRESH_BUSY` is set while one has it. -/
def Single (s : State) : Prop := Kept (fun p : Phase => p.holds = true) s.busy s.phase

theorem single_start : Single start := kept_start _ _ fun _ => Bool.false_ne_true

/-- Only the exchange that finds `UINPUT_REFRESH_BUSY` clear takes the slot. -/
theorem Single.exchange (i : ℕ) (p : Phase) (hsingle : Single s)
    (hi : (s.phase i).holds = false) (hp : p.holds = true) :
    Single (if s.busy then s.goto i .returned else { s with busy := true }.goto i p) := by
  by_cases hbusy : s.busy = true
  · rw [if_pos hbusy]
    exact hsingle.goto _ _ _ i .returned (by rw [hi]; rfl)
  · rw [if_neg hbusy]
    exact hsingle.take _ _ _ i p hbusy hp

theorem single_step (hsingle : Single s) (hstep : step s e = some t) : Single t := by
  cases e with
  | swap i =>
    obtain ⟨hphase, rfl⟩ := (State.inPhase_eq_some ..).mp hstep
    exact hsingle.exchange s i .starting (by rw [hphase]; rfl) rfl
  | retake i served =>
    obtain ⟨hphase, rfl⟩ := (State.inPhase_eq_some ..).mp hstep
    exact hsingle.exchange s i (.looping served) (by rw [hphase]; rfl) rfl
  | release i served =>
    obtain ⟨hphase, rfl⟩ := (State.inPhase_eq_some ..).mp hstep
    exact hsingle.release _ _ _ i (.released served) (by simp [hphase, Phase.holds])
      (by simp [Phase.holds])
  | drop i =>
    obtain ⟨hphase, rfl⟩ := (State.inPhase_eq_some ..).mp hstep
    exact hsingle.release _ _ _ i .returned (by simp [hphase, Phase.holds]) (by simp [Phase.holds])
  | build i ok =>
    obtain ⟨hphase, rfl⟩ := (State.inPhase_eq_some ..).mp hstep
    exact hsingle.goto _ _ _ i _ (by cases ok <;> simp [hphase, Phase.holds])
  | updated i served panicked =>
    obtain ⟨hphase, rfl⟩ := (State.inPhase_eq_some ..).mp hstep
    exact hsingle.goto _ _ _ i _ (by cases panicked <;> simp [hphase, Phase.holds])
  | load i served =>
    obtain ⟨hphase, rfl⟩ := (State.inPhase_eq_some ..).mp hstep
    exact hsingle.goto _ _ _ i _ (by rw [hphase]; split <;> simp [Phase.holds])
  | recheck i served =>
    obtain ⟨hphase, rfl⟩ := (State.inPhase_eq_some ..).mp hstep
    exact hsingle.goto _ _ _ i _ (by rw [hphase]; split <;> simp [Phase.holds])
  | announce i | spawn i | update i g =>
    obtain ⟨hphase, rfl⟩ := (State.inPhase_eq_some ..).mp hstep
    exact hsingle.goto _ _ _ i _ (by simp [hphase, Phase.holds])

theorem single_exec (hexec : exec step start es = some s) : Single s :=
  invariant_of_exec step Single single_step start s es single_start hexec

/-! ### The count of the requests -/

def announced (es : List Event) : ℕ := es.countP fun e => e matches .announce _

theorem announced_concat :
    announced (es ++ [e]) = announced es + if e matches .announce _ then 1 else 0 := by
  rw [announced, List.countP_append, List.countP_singleton]
  rfl

/-- Request `i` was made, and no update has begun since it was announced. -/
def Unserved (i : ℕ) (es : List Event) : Prop :=
  Since (fun e => e = .announce i) (fun e => ∀ w g, e ≠ .update w g) es

def Phase.served : Phase → Option UInt64
  | .looping v | .updating v | .leaving v | .released v | .retaking v => some v
  | .outside | .announced | .starting | .building | .loaded _ | .failed | .returned => none

def Phase.seen : Phase → Option UInt64
  | .looping v | .updating v | .leaving v | .released v | .retaking v | .loaded v => some v
  | .outside | .announced | .starting | .building | .failed | .returned => none

theorem Phase.seen_of_served (p : Phase) (v : UInt64) (hserved : p.served = some v) :
    p.seen = some v := by
  cases p <;> first | exact hserved | cases hserved

/-- The count is that of the requests, and a worker has seen no more of them. While a request is
unserved, no worker takes the count for the one that it served. -/
structure Counted (es : List Event) (s : State) : Prop where
  gen : s.gen = UInt64.ofNat (announced es)
  seen : ∀ w v, (s.phase w).seen = some v → v.toNat ≤ announced es
  late : ∀ i, Unserved i es →
    0 < announced es ∧ ∀ w v, (s.phase w).served = some v → v.toNat < announced es

theorem counted_start : Counted [] start := by
  refine ⟨rfl, ?_, ?_⟩
  · intro w v hv
    cases hv
  · intro i hi
    exact absurd hi (not_since_nil _ _)

/-- A step that is no announcement takes a party to a phase that has seen what it had seen,
nothing, or the count. -/
theorem Counted.goto (e : Event) (j : ℕ) (p : Phase)
    (hcounted : Counted es s) (hfew : announced es < 2 ^ 64)
    (hother : ¬ (e matches .announce _) = true) (hgen : t.gen = s.gen)
    (hphase : t.phase = (s.goto j p).phase)
    (hseen : ∀ v, p.seen = some v → v = 0 ∨ v = s.gen ∨ (s.phase j).seen = some v)
    (hserved : ∀ v, p.served = some v →
      v = 0 ∨ (s.phase j).served = some v ∨ ∃ w g, e = .update w g) :
    Counted (es ++ [e]) t := by
  have hsame : announced (es ++ [e]) = announced es := by
    rw [announced_concat, if_neg hother, Nat.add_zero]
  refine ⟨?_, ?_, ?_⟩
  · rw [hsame, hgen]
    exact hcounted.gen
  · intro w v hv
    rw [hphase] at hv
    rw [hsame]
    by_cases hw : w = j
    · subst hw
      rcases hseen v (by simpa [State.goto] using hv) with rfl | rfl | hold
      · exact Nat.zero_le _
      · rw [hcounted.gen, UInt64.toNat_ofNat_of_lt' hfew]
      · exact hcounted.seen w v hold
    · rw [phase_goto_of_ne s j w p hw] at hv
      exact hcounted.seen w v hv
  · intro i hi
    obtain ⟨hbefore, hnot⟩ : Unserved i es ∧ ∀ w g, e ≠ .update w g := by
      rcases (since_concat ..).mp hi with rfl | h
      · exact absurd rfl hother
      · exact h
    obtain ⟨hpos, hlate⟩ := hcounted.late i hbefore
    rw [hsame]
    refine ⟨hpos, ?_⟩
    intro w v hv
    rw [hphase] at hv
    by_cases hw : w = j
    · subst hw
      rcases hserved v (by simpa [State.goto] using hv) with rfl | hold | ⟨x, g, he⟩
      · exact hpos
      · exact hlate w v hold
      · exact absurd he (hnot x g)
    · rw [phase_goto_of_ne s j w p hw] at hv
      exact hlate w v hv

theorem Counted.announce (j : ℕ) (hcounted : Counted es s) (hphase : s.phase j = .outside) :
    Counted (es ++ [.announce j]) ({ s with gen := s.gen + 1 }.goto j .announced) := by
  have hone : announced (es ++ [.announce j]) = announced es + 1 := by
    rw [announced_concat, if_pos rfl]
  have hseen : ∀ w v, (({ s with gen := s.gen + 1 }.goto j .announced).phase w).seen = some v →
      v.toNat ≤ announced es := by
    intro w v hv
    by_cases hw : w = j
    · subst hw
      simp [State.goto, Phase.seen] at hv
    · rw [phase_goto_of_ne _ j w .announced hw] at hv
      exact hcounted.seen w v hv
  refine ⟨?_, ?_, ?_⟩
  · rw [hone, UInt64.ofNat_add, ← hcounted.gen]
    rfl
  · intro w v hv
    rw [hone]
    exact Nat.le_succ_of_le (hseen w v hv)
  · intro i _
    rw [hone]
    refine ⟨Nat.succ_pos _, ?_⟩
    intro w v hv
    exact Nat.lt_succ_of_le (hseen w v (Phase.seen_of_served _ v hv))

theorem counted_step
    (hcounted : Counted es s) (hfew : announced es < 2 ^ 64) (hstep : step s e = some t) :
    Counted (es ++ [e]) t := by
  cases e with
  | announce j =>
    obtain ⟨hphase, rfl⟩ := (State.inPhase_eq_some ..).mp hstep
    exact hcounted.announce es s j hphase
  | swap j =>
    obtain ⟨hphase, rfl⟩ := (State.inPhase_eq_some ..).mp hstep
    split
    · exact hcounted.goto es s _ _ j .returned hfew (by simp) rfl rfl (by simp [Phase.seen])
        (by simp [Phase.served])
    · exact hcounted.goto es s _ _ j .starting hfew (by simp) rfl rfl (by simp [Phase.seen])
        (by simp [Phase.served])
  | spawn j =>
    obtain ⟨hphase, rfl⟩ := (State.inPhase_eq_some ..).mp hstep
    exact hcounted.goto es s _ _ j .building hfew (by simp) rfl rfl (by simp [Phase.seen])
      (by simp [Phase.served])
  | build j ok =>
    obtain ⟨hphase, rfl⟩ := (State.inPhase_eq_some ..).mp hstep
    refine hcounted.goto es s _ _ j _ hfew (by simp) rfl rfl ?_ ?_
    · cases ok <;> simp +contextual [Phase.seen, eq_comm]
    · cases ok <;> simp +contextual [Phase.served, eq_comm]
  | load j served =>
    obtain ⟨hphase, rfl⟩ := (State.inPhase_eq_some ..).mp hstep
    refine hcounted.goto es s _ _ j _ hfew (by simp) rfl rfl ?_ ?_
    · rw [hphase]
      split <;> simp +contextual [Phase.seen, eq_comm]
    · rw [hphase]
      split <;> simp +contextual [Phase.served]
  | update j g =>
    obtain ⟨hphase, rfl⟩ := (State.inPhase_eq_some ..).mp hstep
    refine hcounted.goto es s _ _ j (.updating g) hfew (by simp) rfl rfl ?_ ?_
    · intro v hv
      exact Or.inr (Or.inr (hphase ▸ hv))
    · intro v _
      exact Or.inr (Or.inr ⟨j, g, rfl⟩)
  | updated j served panicked =>
    obtain ⟨hphase, rfl⟩ := (State.inPhase_eq_some ..).mp hstep
    refine hcounted.goto es s _ _ j _ hfew (by simp) rfl rfl ?_ ?_
    · cases panicked <;> simp +contextual [Phase.seen, hphase]
    · cases panicked <;> simp +contextual [Phase.served, hphase]
  | release j served =>
    obtain ⟨hphase, rfl⟩ := (State.inPhase_eq_some ..).mp hstep
    refine hcounted.goto es s _ _ j (.released served) hfew (by simp) rfl rfl ?_ ?_
    · simp +contextual [Phase.seen, hphase]
    · simp +contextual [Phase.served, hphase]
  | recheck j served =>
    obtain ⟨hphase, rfl⟩ := (State.inPhase_eq_some ..).mp hstep
    refine hcounted.goto es s _ _ j _ hfew (by simp) rfl rfl ?_ ?_
    · rw [hphase]
      split <;> simp +contextual [Phase.seen]
    · rw [hphase]
      split <;> simp +contextual [Phase.served]
  | retake j served =>
    obtain ⟨hphase, rfl⟩ := (State.inPhase_eq_some ..).mp hstep
    split
    · exact hcounted.goto es s _ _ j .returned hfew (by simp) rfl rfl (by simp [Phase.seen])
        (by simp [Phase.served])
    · exact hcounted.goto es s _ _ j (.looping served) hfew (by simp) rfl rfl
        (by simp +contextual [Phase.seen, hphase]) (by simp +contextual [Phase.served, hphase])
  | drop j =>
    obtain ⟨hphase, rfl⟩ := (State.inPhase_eq_some ..).mp hstep
    exact hcounted.goto es s _ _ j .returned hfew (by simp) rfl rfl (by simp [Phase.seen])
      (by simp [Phase.served])

theorem counted_exec (hexec : exec step start es = some s)
    (hfew : announced es < 2 ^ 64) : Counted es s := by
  refine history_of_exec step (fun es s => announced es < 2 ^ 64 → Counted es s) start
    (fun _ => counted_start) ?_ es s hexec hfew
  intro es s e t _ ih hstep hmore
  rw [announced_concat] at hmore
  have hless : announced es < 2 ^ 64 := by omega
  exact counted_step es s e t (ih hless) hless hstep

/-! ### No request is lost, unless a worker fails -/

/-- Request `i` has tried the slot, and no worker has failed and given it back since. -/
def Tried (i : ℕ) (es : List Event) : Prop :=
  Since (fun e => e = .swap i) (fun e => ∀ w, e ≠ .drop w) es

/-- No worker is active or being started. -/
def Quiet (s : State) : Prop := ∀ w, (s.phase w).active = false

theorem Single.exists_active (hsingle : Single s) (hbusy : s.busy = true) :
    ∃ w, (s.phase w).holds = true ∧ (s.phase w).active = true := by
  obtain ⟨w, hw⟩ := hsingle.holder hbusy
  refine ⟨w, hw, ?_⟩
  cases hphase : s.phase w <;> simp_all [Phase.holds, Phase.active]

/-- A party that finds the slot taken ends: the one that has it is left. -/
theorem Single.active_returned (j : ℕ) (hsingle : Single s) (hbusy : s.busy = true)
    (hj : (s.phase j).holds = false) : ∃ w, ((s.goto j .returned).phase w).active = true := by
  obtain ⟨w, hw, hactive⟩ := hsingle.exists_active s hbusy
  have hne : w ≠ j := by
    rintro rfl
    rw [hw] at hj
    cases hj
  exact ⟨w, by rwa [phase_goto_of_ne s j w .returned hne]⟩

def Awaited (i : ℕ) (es : List Event) (s : State) : Prop :=
  s.phase i = .announced ∨ ¬ Tried i es ∨ ∃ w, (s.phase w).active = true

theorem awaited_of_active (p : Phase) (hp : p.active = true) : Awaited i es (s.goto j p) :=
  Or.inr (Or.inr ⟨j, by simpa [State.goto] using hp⟩)

/-- A failed worker gives the slot back: those that have tried it wait no longer. -/
theorem awaited_drop : ¬ Tried i (es ++ [.drop j]) := by
  intro htried
  rcases (since_concat ..).mp htried with h | ⟨-, h⟩
  · cases h
  · exact h j rfl

theorem Awaited.announce (hawaited : Awaited i es s) (hphase : s.phase j = .outside) :
    Awaited i (es ++ [.announce j]) ({ s with gen := s.gen + 1 }.goto j .announced) := by
  rcases hawaited with hcalling | hnot | hactive
  · refine Or.inl ?_
    by_cases hi : i = j
    · subst hi
      simp [State.goto]
    · rw [phase_goto_of_ne _ j i .announced hi]
      exact hcalling
  · refine Or.inr (Or.inl fun htried => ?_)
    rcases (since_concat ..).mp htried with h | ⟨h, -⟩
    · cases h
    · exact hnot h
  · exact Or.inr (Or.inr (exists_update s.phase j .announced (·.active = true) hactive
      (by simp [hphase, Phase.active])))

theorem awaited_step (hsingle : Single s) (hcounted : Counted es s) (hfew : announced es < 2 ^ 64)
    (hunserved : Unserved i es) (hnot : ∀ w g, e ≠ .update w g) (hawaited : Awaited i es s)
    (hstep : step s e = some t) : Awaited i (es ++ [e]) t := by
  cases e with
  | announce j =>
    obtain ⟨hphase, rfl⟩ := (State.inPhase_eq_some ..).mp hstep
    exact hawaited.announce i j es s hphase
  | update j g => exact absurd rfl (hnot j g)
  | swap j =>
    obtain ⟨hphase, rfl⟩ := (State.inPhase_eq_some ..).mp hstep
    split
    next hbusy =>
      exact Or.inr (Or.inr (hsingle.active_returned s j hbusy (by rw [hphase]; rfl)))
    next => exact awaited_of_active i j _ _ .starting rfl
  | retake j served =>
    obtain ⟨hphase, rfl⟩ := (State.inPhase_eq_some ..).mp hstep
    split
    next hbusy =>
      exact Or.inr (Or.inr (hsingle.active_returned s j hbusy (by rw [hphase]; rfl)))
    next => exact awaited_of_active i j _ _ (.looping served) rfl
  | recheck j served =>
    obtain ⟨hphase, rfl⟩ := (State.inPhase_eq_some ..).mp hstep
    split
    next hgen =>
      -- the count cannot be the one that was served
      have hlate := (hcounted.late i hunserved).2 j served (by rw [hphase]; rfl)
      rw [← hgen, hcounted.gen, UInt64.toNat_ofNat_of_lt' hfew] at hlate
      exact absurd hlate (Nat.lt_irrefl _)
    next => exact awaited_of_active i j _ _ (.retaking served) rfl
  | drop j =>
    obtain ⟨hphase, rfl⟩ := (State.inPhase_eq_some ..).mp hstep
    exact Or.inr (Or.inl (awaited_drop i j es))
  | build j ok =>
    obtain ⟨-, rfl⟩ := (State.inPhase_eq_some ..).mp hstep
    exact awaited_of_active i j _ _ _ (by cases ok <;> rfl)
  | load j served =>
    obtain ⟨-, rfl⟩ := (State.inPhase_eq_some ..).mp hstep
    exact awaited_of_active i j _ _ _ (by split <;> rfl)
  | updated j served panicked =>
    obtain ⟨-, rfl⟩ := (State.inPhase_eq_some ..).mp hstep
    exact awaited_of_active i j _ _ _ (by cases panicked <;> rfl)
  | spawn j | release j served =>
    obtain ⟨-, rfl⟩ := (State.inPhase_eq_some ..).mp hstep
    exact awaited_of_active i j _ _ _ rfl

theorem awaited_exec (hexec : exec step start es = some s)
    (hfew : announced es < 2 ^ 64) (i : ℕ) (hunserved : Unserved i es) : Awaited i es s := by
  refine history_of_exec step
    (fun es s => announced es < 2 ^ 64 → ∀ i, Unserved i es → Awaited i es s) start ?_ ?_ es s
    hexec hfew i hunserved
  · intro _ i h
    exact absurd h (not_since_nil _ _)
  · intro es s e t hs ih hstep hmore i h
    have hless : announced es < 2 ^ 64 := by
      rw [announced_concat] at hmore
      omega
    rcases (since_concat ..).mp h with rfl | ⟨hbefore, hnot⟩
    · obtain ⟨-, rfl⟩ := (State.inPhase_eq_some ..).mp hstep
      exact Or.inl (by simp [State.goto])
    · exact awaited_step i es s e t (single_exec es s hs) (counted_exec es s hs hless) hless
        hbefore hnot (ih hless i hbefore) hstep

/-- While no worker is active or being started, every request that has tried the slot was followed
by the beginning of an update, or its attempt by a failed worker that gave the slot back. -/
theorem served_of_quiet (hexec : exec step start es = some s)
    (hfew : announced es < 2 ^ 64) (hquiet : Quiet s) (i : ℕ) (hmade : s.phase i ≠ .announced) :
    ¬ Unserved i es ∨ ¬ Tried i es := by
  by_cases hunserved : Unserved i es
  · rcases awaited_exec es s hexec hfew i hunserved with hcalling | hnot | ⟨w, hw⟩
    · exact absurd hcalling hmade
    · exact Or.inr hnot
    · rw [hquiet w] at hw
      cases hw
  · exact Or.inl hunserved

/-- No worker is left when none of those that took a step is. -/
theorem quiet_of_run (hexec : exec step start es = some s)
    (hend : (exec step start es).map (fun s => es.all fun e => !(s.phase e.call).active) =
      some true) : Quiet s := by
  rw [hexec, Option.map_some, Option.some.injEq, List.all_eq_true] at hend
  intro w
  by_cases hw : ∃ e ∈ es, w = e.call
  · obtain ⟨e, he, rfl⟩ := hw
    simpa using hend e he
  · push Not at hw
    rw [phase_of_exec es s w hexec hw]
    rfl

/-! ### Both workers -/

theorem refresh_workers :
    (∀ (D : Type) (_ : DecidableEq D) (es : List (CacheRefresh.Event D)) (s : CacheRefresh.State D),
      exec CacheRefresh.step CacheRefresh.start es = some s →
        (∀ i j, (s.phase i).holds = true → (s.phase j).holds = true → i = j) ∧
        (∀ e t, CacheRefresh.step s e = some t →
          t.cache ≠ s.cache ∨ t.generation ≠ s.generation → (s.phase e.call).holds = true) ∧
        CacheRefresh.Counted es s ∧
        (CacheRefresh.Quiet s →
          ∀ i, s.phase i ≠ .announced → ¬ CacheRefresh.Unserved i es)) ∧
    (∀ (es : List Event) (s : State), exec step start es = some s →
        (∀ i j, (s.phase i).holds = true → (s.phase j).holds = true → i = j) ∧
        (announced es < 2 ^ 64 → Quiet s →
          ∀ i, s.phase i ≠ .announced → ¬ Unserved i es ∨ ¬ Tried i es)) := by
  refine ⟨?_, ?_⟩
  · intro D _ es s hexec
    refine ⟨(CacheRefresh.single_exec es s hexec).unique, ?_, CacheRefresh.counted_exec es s hexec,
      CacheRefresh.served_of_quiet es s hexec⟩
    intro e t hstep hwrite
    exact CacheRefresh.holds_of_write s e t hstep hwrite
  · intro es s hexec
    exact ⟨(single_exec es s hexec).unique, served_of_quiet es s hexec⟩

def refreshed : List (CacheRefresh.Event ℕ) :=
  [.announce 0, .swap 0, .spawn 0, .clear 0, .enumerate 0, .enumerated 0 (some [7]), .lock 0 [7],
    .fetchAdd 0, .check 0, .release 0, .recheck 0]

def coalesced : List Event :=
  [.announce 0, .swap 0, .spawn 0, .build 0 true, .load 0 0, .update 0 1, .announce 1, .swap 1,
    .updated 0 1 false, .load 0 1, .update 0 2, .updated 0 2 false, .load 0 2, .release 0 2,
    .recheck 0 2]

theorem refresh_workers_first :
    (∃ s, exec CacheRefresh.step CacheRefresh.start refreshed = some s ∧
      ∀ i, s.phase i ≠ .announced → ¬ CacheRefresh.Unserved i refreshed) ∧
    ∃ s, exec step start coalesced = some s ∧
      ∀ i, s.phase i ≠ .announced → ¬ Unserved i coalesced ∨ ¬ Tried i coalesced := by
  constructor
  · obtain ⟨s, hs⟩ : ∃ s, exec CacheRefresh.step CacheRefresh.start refreshed = some s := ⟨_, rfl⟩
    have hzero : (exec CacheRefresh.step CacheRefresh.start refreshed).map (·.phase 0) =
        some .returned := rfl
    rw [hs, Option.map_some, Option.some.injEq] at hzero
    refine ⟨s, hs, (refresh_workers.1 ℕ _ refreshed s hs).2.2.2 ?_⟩
    intro w
    by_cases hw : w = 0
    · rw [hw, hzero]
      rfl
    · rw [CacheRefresh.phase_of_exec refreshed s w hs
        (by simp [refreshed, CacheRefresh.Event.call, hw])]
      rfl
  · obtain ⟨s, hs⟩ : ∃ s, exec step start coalesced = some s := ⟨_, rfl⟩
    exact ⟨s, hs, (refresh_workers.2 coalesced s hs).2 (by decide) (quiet_of_run _ s hs rfl)⟩

/-- The requests up to `n` are announced. -/
def announceAll (n : ℕ) : List Event := (List.range n).map .announce

theorem unserved_announceAll (n : ℕ) (hn : 0 < n) (es : List Event)
    (hes : ∀ e ∈ es, ∀ w g, e ≠ .update w g) : Unserved 0 (announceAll n ++ es) := by
  obtain ⟨m, rfl⟩ := Nat.exists_eq_succ_of_ne_zero (Nat.ne_of_gt hn)
  refine ⟨[], .announce 0, (List.range m).map (fun i => .announce (i + 1)) ++ es, ?_, rfl, ?_⟩
  · simp [announceAll, List.range_succ_eq_map]
  · intro e he
    rcases List.mem_append.mp he with he | he
    · obtain ⟨i, -, rfl⟩ := List.mem_map.mp he
      simp
    · exact hes e he

theorem exec_announceAll (n : ℕ) :
    exec step start (announceAll n) =
      some ⟨UInt64.ofNat n, false, fun i => if i < n then .announced else .outside⟩ := by
  induction n with
  | zero => rfl
  | succ n ih =>
    rw [announceAll, List.range_succ, List.map_append]
    refine (exec_append ..).mpr ⟨_, ih, ?_⟩
    have hphase : (fun i => if i < n + 1 then Phase.announced else .outside) =
        Function.update (fun i => if i < n then Phase.announced else .outside) n .announced := by
      funext i
      by_cases hi : i = n
      · simp [hi]
      · rw [Function.update_of_ne hi]
        have hlt : i < n + 1 ↔ i < n := by omega
        simp only [hlt]
    rw [hphase, UInt64.ofNat_add]
    simp [exec, step, State.inPhase, State.goto]

/-- Request `i` has tried the slot, no update has begun since it was announced, and no worker is
left. -/
def Lost (i : ℕ) (es : List Event) : Prop :=
  ∃ s, exec step start es = some s ∧ Quiet s ∧ s.phase i ≠ .announced ∧ Unserved i es

def notBuilt : List Event := [.announce 0, .swap 0, .spawn 0, .build 0 false, .drop 0]

def panicked : List Event :=
  [.announce 0, .swap 0, .spawn 0, .build 0 true, .load 0 0, .update 0 1, .announce 1, .swap 1,
    .updated 0 1 true, .drop 0]

def alone : List Event :=
  [.swap 0, .spawn 0, .build 0 true, .load 0 0, .release 0 0, .recheck 0 0]

def wrapped : List Event := announceAll (2 ^ 64) ++ alone

theorem lost_notBuilt : Lost 0 notBuilt := by
  obtain ⟨s, hs⟩ : ∃ s, exec step start notBuilt = some s := ⟨_, rfl⟩
  have hphase : (exec step start notBuilt).map (·.phase 0) = some .returned := rfl
  rw [hs, Option.map_some, Option.some.injEq] at hphase
  refine ⟨s, hs, quiet_of_run _ s hs rfl, by simp [hphase], ?_⟩
  exact ⟨[], .announce 0, [.swap 0, .spawn 0, .build 0 false, .drop 0], rfl, rfl, by simp⟩

theorem lost_panicked : Lost 1 panicked := by
  obtain ⟨s, hs⟩ : ∃ s, exec step start panicked = some s := ⟨_, rfl⟩
  have hphase : (exec step start panicked).map (·.phase 1) = some .returned := rfl
  rw [hs, Option.map_some, Option.some.injEq] at hphase
  refine ⟨s, hs, quiet_of_run _ s hs rfl, by simp [hphase], ?_⟩
  exact ⟨[.announce 0, .swap 0, .spawn 0, .build 0 true, .load 0 0, .update 0 1], .announce 1,
    [.swap 1, .updated 0 1 true, .drop 0], rfl, rfl, by simp⟩

theorem exec_alone (phase : ℕ → Phase) (hphase : phase 0 = .announced) :
    ∃ s, exec step ⟨0, false, phase⟩ alone = some s ∧ s.phase 0 = .returned ∧
      ∀ w, w ≠ 0 → s.phase w = phase w := by
  simp +contextual [alone, exec, step, State.inPhase, State.goto, hphase]

theorem lost_wrapped : Lost 0 wrapped := by
  obtain ⟨s, hs, hzero, hothers⟩ :=
    exec_alone (fun i => if i < 2 ^ 64 then .announced else .outside) rfl
  refine ⟨s, (exec_append ..).mpr ⟨_, exec_announceAll (2 ^ 64), hs⟩, ?_, by simp [hzero], ?_⟩
  · intro w
    by_cases hw : w = 0
    · rw [hw, hzero]
      rfl
    · rw [hothers w hw]
      split <;> rfl
  · exact unserved_announceAll (2 ^ 64) (Nat.two_pow_pos 64) alone (by simp [alone])

theorem refresh_lost : Lost 0 notBuilt ∧ Lost 1 panicked ∧ Lost 0 wrapped :=
  ⟨lost_notBuilt, lost_panicked, lost_wrapped⟩

end ClantoDesk.UinputRefresh
