import ClantoDesk.Runs
import ClantoDesk.Slot
import Mathlib.Algebra.Order.Ring.Int

/-!
The verdict on the availability of DRM capture, `DRM_STATE` in src/server/drm_capturer.rs. Calls
read it, query the service for seconds without the lock, and publish what they learned: the probe
and the two refreshes while they hold `DRM_PROBE_IN_FLIGHT`, the warm-up and the login refresh
without it. A hotplug swaps the list of displays without a query. Each access under the lock and
each exchange of the flag is a step, in any order.
-/
namespace ClantoDesk.ProbeVerdicts

open Runs Slot

-- what is known of a display
variable {D : Type}

def NEGATIVE_TTL : ℕ := 30000000000

def POSITIVE_TTL : ℕ := 15000000000

def DRM_PROBE_MAX_FAILURES : UInt32 := 5

def DRM_REFRESH_MAX_FAILURES : UInt32 := 3

inductive ProbeState (D : Type) where
  | unknown
  | unavailable (since : ℕ)
  | available (since : ℕ) (list : List D)

inductive RefreshOutcome where
  | publish
  | unavailable
  | restamp
  | giveUp

def refreshOutcome (probe : Option ℕ) (failures : UInt32) : RefreshOutcome :=
  match probe with
  | some 0 => .unavailable
  | some _ => .publish
  | none => if DRM_REFRESH_MAX_FAILURES ≤ failures then .giveUp else .restamp

inductive Job where
  | probe
  | refreshUnavailable (sampled : UInt64)
  | refreshAvailable (sampled : UInt64)
  | warm (left : ℕ)
  | login (sampled : UInt64)
  deriving DecidableEq

inductive Phase (D : Type) where
  | outside
  | toProbe
  | toRefresh (negative : Bool)
  | sampling (negative : Bool)
  | warming (left : ℕ)
  | ready (job : Job)
  | querying (job : Job) (started : ℕ)
  | queried (job : Job) (started : ℕ) (result : Option (List D))
  | releasing
  | returned
  deriving DecidableEq

/-- The shared variables, for the account the number of published verdicts, and the phase of every
call. -/
structure State (D : Type) where
  verdict : ProbeState D
  gen : UInt64
  inFlight : Bool
  probeFailures : UInt32
  refreshFailures : UInt32
  published : ℕ
  phase : ℕ → Phase D

def start : State D := ⟨.unknown, 0, false, 0, 0, 0, fun _ => .outside⟩

namespace State

def publishProbeState (s : State D) (next : ProbeState D) : State D :=
  { s with verdict := next, gen := s.gen + 1, published := s.published + 1 }

/-- The locked part of `probe_and_publish`. -/
def probeAndPublish (s : State D) (now : ℕ) (result : Option (List D)) : State D :=
  match result with
  | some [] => s.publishProbeState (.unavailable now)
  | some list => { s with probeFailures := 0 }.publishProbeState (.available now list)
  | none =>
    if DRM_PROBE_MAX_FAILURES ≤ s.probeFailures + 1 then
      { s with probeFailures := s.probeFailures + 1 }.publishProbeState (.unavailable now)
    else { s with probeFailures := s.probeFailures + 1 }

/-- The locked part of `refresh_unavailable_async` after its query. -/
def refreshUnavailable (s : State D) (now : ℕ) (sampled : UInt64) (result : Option (List D)) :
    State D :=
  if s.gen ≠ sampled then s
  else
    match result.getD [] with
    | [] => s.publishProbeState (.unavailable now)
    | list => { s with probeFailures := 0 }.publishProbeState (.available now list)

/-- The locked part of `refresh_available_async` after its query. -/
def refreshAvailable (s : State D) (now : ℕ) (sampled : UInt64) (result : Option (List D)) :
    State D :=
  if s.gen ≠ sampled then s
  else
    let failures := if result.isSome then 0 else s.refreshFailures + 1
    let s := { s with refreshFailures := failures }
    match refreshOutcome (result.map List.length) failures with
    | .publish => s.publishProbeState (.available now (result.getD []))
    | .unavailable => s.publishProbeState (.unavailable now)
    | .restamp =>
      match s.verdict with
      | .available _ list => { s with verdict := .available now list }
      | _ => s
    | .giveUp => { s with refreshFailures := 0 }.publishProbeState .unknown

/-- What a round of `warm_availability` does with a query. -/
def warmAvailability (s : State D) (now : ℕ) (result : Option (List D)) : State D :=
  match result.getD [] with
  | [] => s
  | list => s.publishProbeState (.available now list)

/-- What `refresh_displays_for_login` does with its query. -/
def refreshDisplaysForLogin (s : State D) (now : ℕ) (sampled : UInt64)
    (result : Option (List D)) : State D :=
  match result.getD [] with
  | [] => s
  | list =>
    if s.gen ≠ sampled then s
    else
      match s.verdict with
      | .available _ _ => s.publishProbeState (.available now list)
      | _ => s

def swapAvailableDisplays (s : State D) (now : ℕ) (list : List D) : State D :=
  match s.verdict with
  | .available _ _ =>
    match list with
    | [] => s.publishProbeState (.unavailable now)
    | list => s.publishProbeState (.available now list)
  | _ => s

def settle (s : State D) (job : Job) (now : ℕ) (result : Option (List D)) : State D :=
  match job with
  | .probe => s.probeAndPublish now result
  | .refreshUnavailable sampled => s.refreshUnavailable now sampled result
  | .refreshAvailable sampled => s.refreshAvailable now sampled result
  | .warm _ => s.warmAvailability now result
  | .login sampled => s.refreshDisplaysForLogin now sampled result

def goto (s : State D) (i : ℕ) (p : Phase D) : State D :=
  { s with phase := Function.update s.phase i p }

variable [DecidableEq D] in
def inPhase (s : State D) (i : ℕ) (p : Phase D) (t : State D) : Option (State D) :=
  if s.phase i = p then some t else none

variable [DecidableEq D] in
@[simp] theorem inPhase_eq_some (s t u : State D) (i : ℕ) (p : Phase D) :
    s.inPhase i p t = some u ↔ s.phase i = p ∧ t = u := by
  simp [inPhase]

/-- Where `availability` and `availability_cached` go on from what they read of the verdict. -/
def assess (s : State D) (now : ℕ) : Phase D :=
  match s.verdict with
  | .available since _ => if POSITIVE_TTL ≤ now - since then .toRefresh false else .returned
  | .unavailable since => if NEGATIVE_TTL ≤ now - since then .toRefresh true else .returned
  | .unknown => .toProbe

def sample (s : State D) (now : ℕ) (negative : Bool) : Phase D :=
  match negative, s.verdict with
  | true, .unavailable since =>
    if NEGATIVE_TTL ≤ now - since then .ready (.refreshUnavailable s.gen) else .releasing
  | false, .available _ _ => .ready (.refreshAvailable s.gen)
  | _, _ => .releasing

/-- Where `warm_availability` goes on at the top of its loop. -/
def warmRound (s : State D) (left : ℕ) (x11 : Bool) : Phase D :=
  match left, s.verdict with
  | 0, _ => .returned
  | left + 1, .available _ _ => if x11 then .warming left else .returned
  | left + 1, _ => if x11 then .warming left else .ready (.warm left)

/-- Where `refresh_displays_for_login` goes on from what it read of the verdict. -/
def loginSample (s : State D) : Phase D :=
  match s.verdict with
  | .available _ _ => .ready (.login s.gen)
  | _ => .returned

end State

/-- The guard of `DRM_PROBE_IN_FLIGHT` lives while the job is done. -/
def Job.guarded : Job → Bool
  | .probe | .refreshUnavailable _ | .refreshAvailable _ => true
  | .warm _ | .login _ => false

def Job.after (job : Job) (result : Option (List D)) : Phase D :=
  match job with
  | .probe | .refreshUnavailable _ | .refreshAvailable _ => .releasing
  | .warm left => if result.getD [] = [] then .warming left else .returned
  | .login _ => .returned

def Job.abandoned (job : Job) : Phase D := if job.guarded then .releasing else .returned

inductive Event (D : Type) where
  | assess (i now : ℕ)
  | swapProbe (i : ℕ)
  | swapRefresh (i : ℕ) (negative : Bool)
  | sample (i now : ℕ) (negative : Bool)
  | warm (i : ℕ)
  | warmRound (i left : ℕ) (x11 : Bool)
  | login (i : ℕ)
  | query (i : ℕ) (job : Job)
  | answer (i : ℕ) (job : Job) (started : ℕ) (result : Option (List D))
  | settle (i : ℕ) (job : Job) (started now : ℕ) (result : Option (List D))
  | notSpawned (i : ℕ) (job : Job)
  | unwound (i : ℕ) (job : Job) (started : ℕ)
  | release (i : ℕ)
  | hotplug (now : ℕ) (list : List D)

variable [DecidableEq D] in
def step (s : State D) : Event D → Option (State D)
  | .assess i now => s.inPhase i .outside (s.goto i (s.assess now))
  | .swapProbe i =>
    s.inPhase i .toProbe
      (if s.inFlight then s.goto i .returned
      else { s with inFlight := true }.goto i (.ready .probe))
  | .swapRefresh i negative =>
    s.inPhase i (.toRefresh negative)
      (if s.inFlight then s.goto i .returned
      else { s with inFlight := true }.goto i (.sampling negative))
  | .sample i now negative => s.inPhase i (.sampling negative) (s.goto i (s.sample now negative))
  | .warm i => s.inPhase i .outside (s.goto i (.warming 10))
  | .warmRound i left x11 => s.inPhase i (.warming left) (s.goto i (s.warmRound left x11))
  | .login i => s.inPhase i .outside (s.goto i s.loginSample)
  | .query i job => s.inPhase i (.ready job) (s.goto i (.querying job s.published))
  | .answer i job started result =>
    s.inPhase i (.querying job started) (s.goto i (.queried job started result))
  | .settle i job started now result =>
    s.inPhase i (.queried job started result)
      ((s.settle job now result).goto i (job.after result))
  | .notSpawned i job => s.inPhase i (.ready job) (s.goto i job.abandoned)
  | .unwound i job started => s.inPhase i (.querying job started) (s.goto i job.abandoned)
  | .release i => s.inPhase i .releasing ({ s with inFlight := false }.goto i .returned)
  | .hotplug now list => some (s.swapAvailableDisplays now list)

/-! ### What the locked parts write -/

/-- At most one verdict is published, and the generation advances with it. -/
structure Advances (s t : State D) : Prop where
  inFlight : t.inFlight = s.inFlight
  phase : t.phase = s.phase
  published : t.published = s.published ∧ t.gen = s.gen ∨
    t.published = s.published + 1 ∧ t.gen = s.gen + 1

variable (s : State D) (job : Job) (now : ℕ) (result : Option (List D))

theorem advances_same (t : State D) (hflag : t.inFlight = s.inFlight) (hphase : t.phase = s.phase)
    (hpublished : t.published = s.published) (hgen : t.gen = s.gen) : Advances s t :=
  ⟨hflag, hphase, Or.inl ⟨hpublished, hgen⟩⟩

theorem advances_publish (t : State D) (next : ProbeState D) (hflag : t.inFlight = s.inFlight)
    (hphase : t.phase = s.phase) (hpublished : t.published = s.published) (hgen : t.gen = s.gen) :
    Advances s (t.publishProbeState next) :=
  ⟨hflag, hphase, Or.inr ⟨congrArg (· + 1) hpublished, congrArg (· + 1) hgen⟩⟩

theorem advances_probeAndPublish : Advances s (s.probeAndPublish now result) := by
  unfold State.probeAndPublish
  split
  · exact advances_publish s s _ rfl rfl rfl rfl
  · exact advances_publish s _ _ rfl rfl rfl rfl
  · split
    · exact advances_publish s _ _ rfl rfl rfl rfl
    · exact advances_same s _ rfl rfl rfl rfl

theorem advances_refreshUnavailable (sampled : UInt64)
    (result : Option (List D)) : Advances s (s.refreshUnavailable now sampled result) := by
  unfold State.refreshUnavailable
  split
  · exact advances_same s s rfl rfl rfl rfl
  · split
    · exact advances_publish s s _ rfl rfl rfl rfl
    · exact advances_publish s _ _ rfl rfl rfl rfl

theorem advances_refreshAvailable (sampled : UInt64)
    (result : Option (List D)) : Advances s (s.refreshAvailable now sampled result) := by
  unfold State.refreshAvailable
  split
  · exact advances_same s s rfl rfl rfl rfl
  · dsimp only
    split
    · exact advances_publish s _ _ rfl rfl rfl rfl
    · exact advances_publish s _ _ rfl rfl rfl rfl
    · split
      · exact advances_same s _ rfl rfl rfl rfl
      · exact advances_same s _ rfl rfl rfl rfl
    · exact advances_publish s _ _ rfl rfl rfl rfl

theorem advances_warmAvailability : Advances s (s.warmAvailability now result) := by
  unfold State.warmAvailability
  split
  · exact advances_same s s rfl rfl rfl rfl
  · exact advances_publish s s _ rfl rfl rfl rfl

theorem advances_refreshDisplaysForLogin (sampled : UInt64)
    (result : Option (List D)) : Advances s (s.refreshDisplaysForLogin now sampled result) := by
  unfold State.refreshDisplaysForLogin
  split
  · exact advances_same s s rfl rfl rfl rfl
  · split
    · exact advances_same s s rfl rfl rfl rfl
    · split
      · exact advances_publish s s _ rfl rfl rfl rfl
      · exact advances_same s s rfl rfl rfl rfl

theorem advances_settle : Advances s (s.settle job now result) := by
  cases job with
  | probe => exact advances_probeAndPublish s now result
  | refreshUnavailable sampled => exact advances_refreshUnavailable s now sampled result
  | refreshAvailable sampled => exact advances_refreshAvailable s now sampled result
  | warm left => exact advances_warmAvailability s now result
  | login sampled => exact advances_refreshDisplaysForLogin s now sampled result

theorem advances_swap (list : List D) : Advances s (s.swapAvailableDisplays now list) := by
  unfold State.swapAvailableDisplays
  split
  · split
    · exact advances_publish s s _ rfl rfl rfl rfl
    · exact advances_publish s s _ rfl rfl rfl rfl
  · exact advances_same s s rfl rfl rfl rfl

def Job.sampled : Job → Option UInt64
  | .refreshUnavailable sampled | .refreshAvailable sampled | .login sampled => some sampled
  | .probe | .warm _ => none

/-- What was sampled must still be the generation for anything to be published. -/
theorem gen_of_settle (sampled : UInt64) (now : ℕ)
    (result : Option (List D)) (hjob : job.sampled = some sampled)
    (hpublished : (s.settle job now result).published ≠ s.published) : s.gen = sampled := by
  by_contra hgen
  refine hpublished ?_
  cases job with
  | probe => cases hjob
  | warm left => cases hjob
  | refreshUnavailable g =>
    obtain rfl : g = sampled := Option.some.inj hjob
    rw [State.settle, State.refreshUnavailable, if_pos hgen]
  | refreshAvailable g =>
    obtain rfl : g = sampled := Option.some.inj hjob
    rw [State.settle, State.refreshAvailable, if_pos hgen]
  | login g =>
    obtain rfl : g = sampled := Option.some.inj hjob
    unfold State.settle State.refreshDisplaysForLogin
    dsimp only
    split
    · rfl
    · rw [if_pos hgen]

/-! ### The flag -/

def Phase.holds : Phase D → Bool
  | .sampling _ | .releasing => true
  | .ready job | .querying job _ | .queried job _ _ => job.guarded
  | .outside | .toProbe | .toRefresh _ | .warming _ | .returned => false

/-- At most one call holds `DRM_PROBE_IN_FLIGHT`, and it is set while one does. -/
def Single (s : State D) : Prop := Kept (fun p : Phase D => p.holds = true) s.inFlight s.phase

theorem single_start : Single (start : State D) := kept_start _ _ fun _ => Bool.false_ne_true

theorem holds_assess : (s.assess now).holds = false := by
  unfold State.assess
  split
  · split <;> rfl
  · split <;> rfl
  · rfl

theorem holds_sample (negative : Bool) : (s.sample now negative).holds = true := by
  unfold State.sample
  split
  · split <;> rfl
  · rfl
  · rfl

theorem holds_warmRound (left : ℕ) (x11 : Bool) : (s.warmRound left x11).holds = false := by
  unfold State.warmRound
  split
  · rfl
  · split <;> rfl
  · split <;> rfl

theorem holds_loginSample : s.loginSample.holds = false := by
  unfold State.loginSample
  split <;> rfl

theorem holds_after : (job.after result).holds = job.guarded := by
  cases job <;> first | rfl | (unfold Job.after; dsimp only; split <;> rfl)

theorem holds_abandoned : (job.abandoned : Phase D).holds = job.guarded := by
  cases job <;> rfl

/-- Only the exchange that finds `DRM_PROBE_IN_FLIGHT` clear takes it. -/
theorem Single.exchange (i : ℕ) (p : Phase D) (hsingle : Single s)
    (hi : (s.phase i).holds = false) (hp : p.holds = true) :
    Single (if s.inFlight then s.goto i .returned else { s with inFlight := true }.goto i p) := by
  by_cases hflag : s.inFlight = true
  · rw [if_pos hflag]
    exact hsingle.goto _ _ _ i .returned (by rw [hi]; rfl)
  · rw [if_neg hflag]
    exact hsingle.take _ _ _ i p hflag hp

variable [DecidableEq D]

theorem single_step (s : State D) (e : Event D) (t : State D) (hsingle : Single s)
    (hstep : step s e = some t) : Single t := by
  -- a step that neither takes the flag nor drops a guard
  have hgoto : ∀ i p, p.holds = (s.phase i).holds → Single (s.goto i p) :=
    fun i p hp => hsingle.goto _ _ _ i p (by rw [hp])
  cases e with
  | assess i now =>
    obtain ⟨hphase, rfl⟩ := (State.inPhase_eq_some ..).mp hstep
    exact hgoto i _ (by rw [holds_assess, hphase]; rfl)
  | swapProbe i =>
    obtain ⟨hphase, rfl⟩ := (State.inPhase_eq_some ..).mp hstep
    exact hsingle.exchange s i (.ready .probe) (by rw [hphase]; rfl) rfl
  | swapRefresh i negative =>
    obtain ⟨hphase, rfl⟩ := (State.inPhase_eq_some ..).mp hstep
    exact hsingle.exchange s i (.sampling negative) (by rw [hphase]; rfl) rfl
  | sample i now negative =>
    obtain ⟨hphase, rfl⟩ := (State.inPhase_eq_some ..).mp hstep
    exact hgoto i _ (by rw [holds_sample, hphase]; rfl)
  | warm i =>
    obtain ⟨hphase, rfl⟩ := (State.inPhase_eq_some ..).mp hstep
    exact hgoto i _ (by rw [hphase]; rfl)
  | warmRound i left x11 =>
    obtain ⟨hphase, rfl⟩ := (State.inPhase_eq_some ..).mp hstep
    exact hgoto i _ (by rw [holds_warmRound, hphase]; rfl)
  | login i =>
    obtain ⟨hphase, rfl⟩ := (State.inPhase_eq_some ..).mp hstep
    exact hgoto i _ (by rw [holds_loginSample, hphase]; rfl)
  | query i job =>
    obtain ⟨hphase, rfl⟩ := (State.inPhase_eq_some ..).mp hstep
    exact hgoto i _ (by rw [hphase]; rfl)
  | answer i job started result =>
    obtain ⟨hphase, rfl⟩ := (State.inPhase_eq_some ..).mp hstep
    exact hgoto i _ (by rw [hphase]; rfl)
  | settle i job started now result =>
    obtain ⟨hphase, rfl⟩ := (State.inPhase_eq_some ..).mp hstep
    have hadv := advances_settle s job now result
    have hnext := hgoto i (job.after result) (by rw [holds_after, hphase]; rfl)
    rw [Single] at hnext ⊢
    simpa only [State.goto, hadv.inFlight, hadv.phase] using hnext
  | notSpawned i job =>
    obtain ⟨hphase, rfl⟩ := (State.inPhase_eq_some ..).mp hstep
    exact hgoto i _ (by rw [holds_abandoned, hphase]; rfl)
  | unwound i job started =>
    obtain ⟨hphase, rfl⟩ := (State.inPhase_eq_some ..).mp hstep
    exact hgoto i _ (by rw [holds_abandoned, hphase]; rfl)
  | release i =>
    obtain ⟨hphase, rfl⟩ := (State.inPhase_eq_some ..).mp hstep
    exact hsingle.release _ _ _ i .returned (by rw [hphase]; rfl) (by simp [Phase.holds])
  | hotplug now list =>
    obtain rfl := Option.some.inj hstep
    have hadv := advances_swap s now list
    rw [Single, hadv.inFlight, hadv.phase]
    exact hsingle

theorem single_exec (es : List (Event D)) (s : State D) (hexec : exec step start es = some s) :
    Single s :=
  invariant_of_exec step Single single_step start s es single_start hexec

/-! ### The account of the queries -/

/-- A query started when no more verdicts had been published than now, and after its job had
sampled the generation. -/
def Phase.Accounted (published : ℕ) : Phase D → Prop
  | .ready job => ∀ g, job.sampled = some g → ∃ m ≤ published, g = UInt64.ofNat m
  | .querying job started | .queried job started _ =>
    started ≤ published ∧ ∀ g, job.sampled = some g → ∃ m ≤ started, g = UInt64.ofNat m
  | _ => True

omit [DecidableEq D] in
theorem Phase.Accounted.mono (p : Phase D) (m n : ℕ) (hmn : m ≤ n) (hp : p.Accounted m) :
    p.Accounted n := by
  cases p with
  | ready job =>
    intro g hg
    obtain ⟨k, hk, rfl⟩ := hp g hg
    exact ⟨k, hk.trans hmn, rfl⟩
  | querying job started => exact ⟨hp.1.trans hmn, hp.2⟩
  | queried job started result => exact ⟨hp.1.trans hmn, hp.2⟩
  | _ => trivial

structure Counted (s : State D) : Prop where
  gen : s.gen = UInt64.ofNat s.published
  accounted : ∀ i, (s.phase i).Accounted s.published

omit [DecidableEq D] in
theorem counted_start : Counted (start : State D) := ⟨rfl, fun _ => trivial⟩

omit [DecidableEq D] in
theorem Counted.advances (s t : State D) (hcounted : Counted s) (hadv : Advances s t) :
    Counted t := by
  rcases hadv.published with ⟨hpublished, hgen⟩ | ⟨hpublished, hgen⟩
  · refine ⟨by rw [hgen, hpublished, hcounted.gen], fun i => ?_⟩
    rw [hadv.phase, hpublished]
    exact hcounted.accounted i
  · refine ⟨?_, fun i => ?_⟩
    · rw [hgen, hpublished, hcounted.gen, UInt64.ofNat_add]
      rfl
    · rw [hadv.phase, hpublished]
      exact (hcounted.accounted i).mono _ _ _ (Nat.le_succ _)

omit [DecidableEq D] in
theorem Counted.goto (s : State D) (i : ℕ) (p : Phase D) (hcounted : Counted s)
    (hp : p.Accounted s.published) : Counted (s.goto i p) := by
  refine ⟨hcounted.gen, fun j => ?_⟩
  by_cases hj : j = i
  · subst hj
    simpa [State.goto] using hp
  · simpa [State.goto, hj] using hcounted.accounted j

omit [DecidableEq D] in
theorem accounted_assess (s : State D) (now : ℕ) : (s.assess now).Accounted s.published := by
  unfold State.assess
  split
  · split <;> trivial
  · split <;> trivial
  · trivial

omit [DecidableEq D] in
theorem accounted_sample (s : State D) (now : ℕ) (negative : Bool) (hcounted : Counted s) :
    (s.sample now negative).Accounted s.published := by
  have hsampled : ∀ g, some s.gen = some g → ∃ m ≤ s.published, g = UInt64.ofNat m := by
    intro g hg
    obtain rfl := Option.some.inj hg
    exact ⟨s.published, le_rfl, hcounted.gen⟩
  unfold State.sample
  split
  · split
    · exact hsampled
    · trivial
  · exact hsampled
  · trivial

omit [DecidableEq D] in
theorem accounted_warmRound (s : State D) (left : ℕ) (x11 : Bool) :
    (s.warmRound left x11).Accounted s.published := by
  unfold State.warmRound
  split
  · trivial
  · split <;> trivial
  · split
    · trivial
    · intro g hg
      cases hg

omit [DecidableEq D] in
theorem accounted_loginSample (s : State D) (hcounted : Counted s) :
    s.loginSample.Accounted s.published := by
  unfold State.loginSample
  split
  · intro g hg
    obtain rfl := Option.some.inj hg
    exact ⟨s.published, le_rfl, hcounted.gen⟩
  · trivial

omit [DecidableEq D] in
theorem accounted_after (job : Job) (result : Option (List D)) (n : ℕ) :
    (job.after result).Accounted n := by
  cases job <;> first | trivial | (unfold Job.after; dsimp only; split <;> trivial)

omit [DecidableEq D] in
theorem accounted_abandoned (job : Job) (n : ℕ) : (job.abandoned : Phase D).Accounted n := by
  cases job <;> trivial

theorem counted_step (s : State D) (e : Event D) (t : State D) (hcounted : Counted s)
    (hstep : step s e = some t) : Counted t := by
  have hflag : ∀ flag, Counted { s with inFlight := flag } :=
      fun _ => ⟨hcounted.gen, hcounted.accounted⟩
  cases e with
  | assess i now =>
    obtain ⟨-, rfl⟩ := (State.inPhase_eq_some ..).mp hstep
    exact hcounted.goto s i _ (accounted_assess s now)
  | swapProbe i =>
    obtain ⟨-, rfl⟩ := (State.inPhase_eq_some ..).mp hstep
    split
    · exact hcounted.goto s i .returned trivial
    · refine (hflag true).goto _ i (.ready .probe) fun g hg => ?_
      cases hg
  | swapRefresh i negative =>
    obtain ⟨-, rfl⟩ := (State.inPhase_eq_some ..).mp hstep
    split
    · exact hcounted.goto s i .returned trivial
    · exact (hflag true).goto _ i (.sampling negative) trivial
  | sample i now negative =>
    obtain ⟨-, rfl⟩ := (State.inPhase_eq_some ..).mp hstep
    exact hcounted.goto s i _ (accounted_sample s now negative hcounted)
  | warm i =>
    obtain ⟨-, rfl⟩ := (State.inPhase_eq_some ..).mp hstep
    exact hcounted.goto s i _ trivial
  | warmRound i left x11 =>
    obtain ⟨-, rfl⟩ := (State.inPhase_eq_some ..).mp hstep
    exact hcounted.goto s i _ (accounted_warmRound s left x11)
  | login i =>
    obtain ⟨-, rfl⟩ := (State.inPhase_eq_some ..).mp hstep
    exact hcounted.goto s i _ (accounted_loginSample s hcounted)
  | query i job =>
    obtain ⟨hphase, rfl⟩ := (State.inPhase_eq_some ..).mp hstep
    have hready := hcounted.accounted i
    rw [hphase] at hready
    exact hcounted.goto s i (.querying job s.published) ⟨le_rfl, hready⟩
  | answer i job started result =>
    obtain ⟨hphase, rfl⟩ := (State.inPhase_eq_some ..).mp hstep
    have hquerying := hcounted.accounted i
    rw [hphase] at hquerying
    exact hcounted.goto s i (.queried job started result) hquerying
  | settle i job started now result =>
    obtain ⟨-, rfl⟩ := (State.inPhase_eq_some ..).mp hstep
    exact (hcounted.advances s _ (advances_settle s job now result)).goto _ i _
      (accounted_after job result _)
  | notSpawned i job =>
    obtain ⟨-, rfl⟩ := (State.inPhase_eq_some ..).mp hstep
    exact hcounted.goto s i _ (accounted_abandoned job _)
  | unwound i job started =>
    obtain ⟨-, rfl⟩ := (State.inPhase_eq_some ..).mp hstep
    exact hcounted.goto s i _ (accounted_abandoned job _)
  | release i =>
    obtain ⟨-, rfl⟩ := (State.inPhase_eq_some ..).mp hstep
    exact (hflag false).goto _ i .returned trivial
  | hotplug now list =>
    obtain rfl := Option.some.inj hstep
    exact hcounted.advances s _ (advances_swap s now list)

/-! ### What is published over what -/

def Overwrites (s : State D) : Event D → Prop
  | .settle i job started now result =>
    s.phase i = .queried job started result ∧
      (s.settle job now result).published ≠ s.published ∧ started ≠ s.published
  | _ => False

/-- When the probe or the warm-up has something to publish, the generation still is what it was
when their query started. -/
def Fresh (s : State D) : Event D → Prop
  | .settle i job started _ result =>
    s.phase i = .queried job started result →
      match job with
      | .probe =>
        (result = none ∧ s.probeFailures + 1 < DRM_PROBE_MAX_FAILURES) ∨
          s.gen = UInt64.ofNat started
      | .warm _ => result.getD [] = [] ∨ s.gen = UInt64.ofNat started
      | _ => True
  | _ => True

omit [DecidableEq D] in
theorem published_probeAndPublish (s : State D) (now : ℕ) (result : Option (List D)) :
    (s.probeAndPublish now result).published = s.published ↔
      result = none ∧ s.probeFailures + 1 < DRM_PROBE_MAX_FAILURES := by
  unfold State.probeAndPublish
  split
  · simp [State.publishProbeState]
  · simp [State.publishProbeState]
  · rw [← UInt32.not_le]
    split
    next hmax => simp [State.publishProbeState, hmax]
    next hmax => simp [hmax]

omit [DecidableEq D] in
theorem published_warmAvailability (s : State D) (now : ℕ) (result : Option (List D)) :
    (s.warmAvailability now result).published = s.published ↔ result.getD [] = [] := by
  unfold State.warmAvailability
  split
  next hnone => simp [hnone]
  next hsome => simpa [State.publishProbeState] using hsome

omit [DecidableEq D] in
/-- The generation tells whether a verdict has been published since a query started. -/
theorem Counted.gen_eq_iff (s : State D) (n : ℕ) (hcounted : Counted s)
    (hfew : s.published < 2 ^ 64) (hn : n ≤ s.published) :
    s.gen = UInt64.ofNat n ↔ n = s.published := by
  rw [hcounted.gen]
  constructor
  · intro h
    have hnat := congrArg UInt64.toNat h
    rw [UInt64.toNat_ofNat_of_lt' hfew, UInt64.toNat_ofNat_of_lt' (hn.trans_lt hfew)] at hnat
    exact hnat.symm
  · intro h
    rw [h]

omit [DecidableEq D] in
/-- A job that compares the generation publishes over no newer verdict. -/
theorem Counted.started_eq (s : State D) (i : ℕ) (job : Job) (sampled : UInt64)
    (started now : ℕ) (result : Option (List D)) (hcounted : Counted s)
    (hfew : s.published < 2 ^ 64) (hjob : job.sampled = some sampled)
    (hphase : s.phase i = .queried job started result)
    (hpublished : (s.settle job now result).published ≠ s.published) : started = s.published := by
  obtain ⟨hstarted, hsampled⟩ : (Phase.queried job started result).Accounted s.published :=
    hphase ▸ hcounted.accounted i
  obtain ⟨m, hm, rfl⟩ := hsampled sampled hjob
  have hgen := gen_of_settle s job (UInt64.ofNat m) now result hjob hpublished
  have hsame := (hcounted.gen_eq_iff s m hfew (hm.trans hstarted)).mp hgen
  exact Nat.le_antisymm hstarted (hsame ▸ hm)

omit [DecidableEq D] in
theorem fresh_iff (s : State D) (e : Event D) (hfew : s.published < 2 ^ 64)
    (hcounted : Counted s) : Fresh s e ↔ ¬ Overwrites s e := by
  cases e with
  | settle i job started now result =>
    by_cases hphase : s.phase i = .queried job started result
    swap
    · simp [Fresh, Overwrites, hphase]
    have hgen := hcounted.gen_eq_iff s started hfew (hphase ▸ hcounted.accounted i).1
    have hchecked : ∀ sampled, job.sampled = some sampled →
        ¬ Overwrites s (.settle i job started now result) := by
      rintro sampled hjob ⟨-, hpublished, hstarted⟩
      exact hstarted (hcounted.started_eq s i job sampled started now result hfew hjob hphase
        hpublished)
    cases job with
    | probe =>
      have hpublished := published_probeAndPublish s now result
      simp only [Fresh, Overwrites, hphase, State.settle, ne_eq, hpublished, hgen]
      tauto
    | warm left =>
      have hpublished := published_warmAvailability s now result
      simp only [Fresh, Overwrites, hphase, State.settle, ne_eq, hpublished, hgen]
      tauto
    | refreshUnavailable sampled => exact iff_of_true (fun _ => trivial) (hchecked sampled rfl)
    | refreshAvailable sampled => exact iff_of_true (fun _ => trivial) (hchecked sampled rfl)
    | login sampled => exact iff_of_true (fun _ => trivial) (hchecked sampled rfl)
  | _ => simp [Fresh, Overwrites]

/-- At most one call holds the flag. While the generation has not gone round, no query's verdict is
published over a newer one exactly if the probe and the warm-up, which do not compare the
generation, only publish while it is the one of their query's start. -/
theorem verdicts_published (es : List (Event D)) :
    (∀ s, exec step start es = some s →
      ∀ i j, (s.phase i).holds = true → (s.phase j).holds = true → i = j) ∧
    (Meets (fun s _ => s.published < 2 ^ 64) step start es →
      (Meets (fun s e => ¬ Overwrites s e) step start es ↔ Meets Fresh step start es)) := by
  refine ⟨fun s hexec => (single_exec es s hexec).unique, fun hfew => ?_⟩
  exact (meets_iff_meets (fun s _ => s.published < 2 ^ 64) Fresh (fun s e => ¬ Overwrites s e) step
    Counted counted_step fresh_iff start es hfew counted_start).symm

instance (s : State D) : ∀ e, Decidable (Overwrites s e)
  | .settle i job started now result =>
    inferInstanceAs (Decidable (s.phase i = .queried job started result ∧
      (s.settle job now result).published ≠ s.published ∧ started ≠ s.published))
  | .assess _ _ | .swapProbe _ | .swapRefresh _ _ | .sample _ _ _ | .warm _ | .warmRound _ _ _
  | .login _ | .query _ _ | .answer _ _ _ _ | .notSpawned _ _ | .unwound _ _ _ | .release _
  | .hotplug _ _ => isFalse id

def confirmed : List (Event ℕ) :=
  [.assess 0 0, .swapProbe 0, .query 0 .probe, .answer 0 .probe 0 (some [7]),
    .settle 0 .probe 0 5 (some [7]), .release 0, .login 1, .query 1 (.login 1),
    .answer 1 (.login 1) 1 (some [7]), .settle 1 (.login 1) 1 9 (some [7])]

theorem verdicts_published_confirmed : Meets Fresh step start confirmed :=
  ((verdicts_published confirmed).2 (by decide)).mp (by decide)

/-- A probe starts its query; meanwhile the warm-up queries the service and finds a display. Then
the probe publishes that there is none. -/
def late : List (Event ℕ) :=
  [.assess 0 0, .swapProbe 0, .query 0 .probe, .warm 1, .warmRound 1 10 false, .query 1 (.warm 9),
    .answer 1 (.warm 9) 0 (some [7]), .settle 1 (.warm 9) 0 5 (some [7]),
    .answer 0 .probe 0 (some []), .settle 0 .probe 0 9 (some [])]

theorem late_overwrites : ¬ Meets (fun s e => ¬ Overwrites s e) step start late := by
  decide

end ClantoDesk.ProbeVerdicts
