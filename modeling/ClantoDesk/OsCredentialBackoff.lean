import ClantoDesk.Runs
import Mathlib.Algebra.Order.Ring.Int
import Mathlib.Tactic.Linarith

/-!
The backoff of logins with the credentials of the operating system,
src/server/login_failure_check.rs. From the third failure on, each one puts off the next attempt by
a time that doubles up to half an hour; two hours without a failure forget them all. The arithmetic
is checked: a result that does not fit its type is none. A login that succeeds changes nothing here.
-/
namespace ClantoDesk.OsCredentialBackoff

open Runs

inductive FailureScope
  | default
  | terminalOsLogin

inductive AlarmAuditType
  | terminalOsLoginBackoff

structure PolicyDecision where
  allowed : Bool
  loginError : Option String
  audit : Option AlarmAuditType

structure FailureState where
  totalFailures : ℤ
  backoffUntilMs : Option ℤ
  lastFailureMs : Option ℤ

def start : FailureState := ⟨0, none, none⟩

def idleResetMs : ℤ := 120 * 60 * 1000

def backoffBaseSeconds : ℤ := 15

def backoffMaxSeconds : ℤ := 30 * 60

def i32Max : ℤ := 2147483647

def i64Max : ℤ := 9223372036854775807

def i32 (n : ℤ) : Option ℤ := if -i32Max - 1 ≤ n ∧ n ≤ i32Max then some n else none

def i64 (n : ℤ) : Option ℤ := if -i64Max - 1 ≤ n ∧ n ≤ i64Max then some n else none

def saturateI64 (n : ℤ) : ℤ := max (-i64Max - 1) (min n i64Max)

/-- `1_i64 << exp`. -/
def shiftOne (exp : ℤ) : Option ℤ :=
  if 0 ≤ exp ∧ exp < 64 then some (Int.bmod (2 ^ exp.toNat) UInt64.size) else none

def backoffSeconds (totalFailures : ℤ) : Option ℤ :=
  if totalFailures ≤ 2 then some 0
  else do
    let excess ← i32 (totalFailures - 3)
    let factor ← shiftOne (min excess 7)
    let seconds ← i64 (backoffBaseSeconds * factor)
    some (min seconds backoffMaxSeconds)

def normalizeBackoff (s : FailureState) (nowMs : ℤ) : FailureState :=
  match s.backoffUntilMs with
  | some untilMs => if untilMs ≤ nowMs then { s with backoffUntilMs := none } else s
  | none => s

def idle (s : FailureState) (nowMs : ℤ) : Bool :=
  match s.lastFailureMs with
  | some lastMs => decide (idleResetMs ≤ saturateI64 (nowMs - lastMs))
  | none => false

def resetTotalsOnIdle (s : FailureState) (nowMs : ℤ) : FailureState :=
  if idle s nowMs then ⟨0, none, none⟩ else s

def allowDecision : PolicyDecision := ⟨true, none, none⟩

def blockDecision (loginError : String) (alarmType : Option AlarmAuditType) : PolicyDecision :=
  ⟨false, some loginError, alarmType⟩

def evaluate (s : FailureState) (scope : FailureScope) (nowMs : ℤ) :
    Option (PolicyDecision × FailureState) :=
  match scope with
  | .default => some (allowDecision, s)
  | .terminalOsLogin =>
    let s := normalizeBackoff (resetTotalsOnIdle s nowMs) nowMs
    match s.backoffUntilMs with
    | some untilMs => do
      let left ← i64 (untilMs - nowMs)
      let rounded ← i64 (max left 0 + 999)
      let remaining := max (rounded / 1000) 1
      let label := if remaining = 1 then "second" else "seconds"
      some (blockDecision ("Please try again in " ++ toString remaining ++ " " ++ label ++ ".")
        (some .terminalOsLoginBackoff), s)
    | none => some (allowDecision, s)

def recordFailure (s : FailureState) (scope : FailureScope) (nowMs : ℤ) : Option FailureState :=
  match scope with
  | .default => some s
  | .terminalOsLogin => do
    let s := normalizeBackoff (resetTotalsOnIdle s nowMs) nowMs
    let s := { s with
      totalFailures := min (s.totalFailures + 1) i32Max
      lastFailureMs := some nowMs }
    let seconds ← backoffSeconds s.totalFailures
    if 0 < seconds then do
      let delay ← i64 (seconds * 1000)
      let untilMs ← i64 (nowMs + delay)
      some { s with backoffUntilMs := some untilMs }
    else some s

inductive Event
  | evaluated (scope : FailureScope) (nowMs : ℤ)
  | failed (scope : FailureScope) (nowMs : ℤ)
  | succeeded (scope : FailureScope) (nowMs : ℤ)

def Event.now : Event → ℤ
  | .evaluated _ nowMs | .failed _ nowMs | .succeeded _ nowMs => nowMs

/-- A success changes nothing: `update_failure` returns early for these credentials. -/
def step (s : FailureState) : Event → Option FailureState
  | .evaluated scope nowMs => (evaluate s scope nowMs).map Prod.snd
  | .failed scope nowMs => recordFailure s scope nowMs
  | .succeeded _ _ => some s

/-! ### The delay -/

def factor (totalFailures : ℤ) : ℤ := 2 ^ (min (totalFailures - 3) 7).toNat

def delayMs (totalFailures : ℤ) : ℤ :=
  if totalFailures ≤ 2 then 0 else min (15 * factor totalFailures) 1800 * 1000

variable (n : ℤ) (s : FailureState) (clock now : ℤ)

theorem factor_pos : 1 ≤ factor n := one_le_pow₀ (by decide)

theorem factor_le : factor n ≤ 128 := by
  have hexp : (min (n - 3) 7).toNat ≤ 7 := by omega
  calc factor n ≤ 2 ^ 7 := pow_le_pow_right₀ (by decide) hexp
    _ = 128 := by decide

theorem factor_mono (m : ℤ) (h : n ≤ m) : factor n ≤ factor m := by
  apply pow_le_pow_right₀ (by decide)
  omega

theorem delayMs_mono (m : ℤ) (h : n ≤ m) : delayMs n ≤ delayMs m := by
  have hfactor := factor_mono n m h
  have hpos := factor_pos m
  unfold delayMs
  split
  · split
    · exact le_refl 0
    · omega
  · split
    · omega
    · omega

theorem delayMs_le : delayMs n ≤ 1800000 := by
  unfold delayMs
  split
  · decide
  · omega

theorem delayMs_pos (h : 2 < n) : 15000 ≤ delayMs n := by
  have hpos := factor_pos n
  rw [delayMs, if_neg (by omega)]
  omega

theorem i64_of_le (hlow : -i64Max - 1 ≤ n) (hhigh : n ≤ i64Max) : i64 n = some n :=
  if_pos ⟨hlow, hhigh⟩

theorem shiftOne_of_le (exp : ℤ) (hlow : 0 ≤ exp) (hhigh : exp ≤ 7) :
    shiftOne exp = some (2 ^ exp.toNat) := by
  have hle : (2 : ℤ) ^ exp.toNat ≤ 2 ^ 7 := pow_le_pow_right₀ (by decide) (by omega)
  have hpos : (1 : ℤ) ≤ 2 ^ exp.toNat := one_le_pow₀ (by decide)
  have hseven : (2 : ℤ) ^ 7 = 128 := by decide
  have hsize : ((UInt64.size : ℕ) : ℤ) = 18446744073709551616 := rfl
  rw [shiftOne, if_pos ⟨hlow, by omega⟩, Int.bmod_eq_of_le (by omega) (by omega)]

theorem backoffSeconds_spec (hlow : 0 ≤ n) (hhigh : n ≤ i32Max) :
    ∃ seconds, backoffSeconds n = some seconds ∧ seconds * 1000 = delayMs n ∧
      0 ≤ seconds ∧ seconds ≤ 1800 := by
  unfold backoffSeconds delayMs
  by_cases hfew : n ≤ 2
  · exact ⟨0, if_pos hfew, by rw [if_pos hfew]; rfl, by decide, by decide⟩
  · have hpos := factor_pos n
    have hle := factor_le n
    have hover : i32 (n - 3) = some (n - 3) := by
      rw [i32Max] at hhigh
      exact if_pos ⟨by rw [i32Max]; omega, by rw [i32Max]; omega⟩
    have hshift : shiftOne (min (n - 3) 7) = some (factor n) :=
      shiftOne_of_le _ (by omega) (by omega)
    have hmul : i64 (backoffBaseSeconds * factor n) = some (15 * factor n) :=
      i64_of_le _ (by rw [i64Max, backoffBaseSeconds]; omega)
        (by rw [i64Max, backoffBaseSeconds]; omega)
    refine ⟨min (15 * factor n) 1800, ?_, by rw [if_neg hfew], by omega, by omega⟩
    rw [if_neg hfew, hover, Option.bind_eq_bind, Option.bind_some, hshift, Option.bind_some, hmul]
    rfl

/-! ### The invariant -/

/-- The count fits, the last failure is past, and a deadline is what the count puts off from it. -/
structure Inv (s : FailureState) (clock : ℤ) : Prop where
  low : 0 ≤ s.totalFailures
  high : s.totalFailures ≤ i32Max
  past : ∀ last, s.lastFailureMs = some last → last ≤ clock
  deadline : ∀ u, s.backoffUntilMs = some u →
    ∃ last, s.lastFailureMs = some last ∧ u = last + delayMs s.totalFailures

theorem inv_start : Inv start clock := by
  refine ⟨by decide, by decide, ?_, ?_⟩
  · intro last h
    cases h
  · intro u h
    cases h

theorem Inv.later {s : FailureState} {clock now : ℤ} (h : Inv s clock) (hnow : clock ≤ now) :
    Inv s now :=
  ⟨h.low, h.high, fun last hlast => (h.past last hlast).trans hnow, h.deadline⟩

/-- The idle reset is due only when a deadline is past. -/
theorem passed_of_idle (u : ℤ) (h : Inv s clock)
    (hidle : idle s now = true) (hu : s.backoffUntilMs = some u) : u ≤ now := by
  obtain ⟨last, hlast, rfl⟩ := h.deadline u hu
  have hdelay := delayMs_le s.totalFailures
  rw [idle, hlast] at hidle
  have hgap := of_decide_eq_true hidle
  simp only [idleResetMs, saturateI64, i64Max] at hgap
  omega

def settle (s : FailureState) (now : ℤ) : FailureState :=
  normalizeBackoff (resetTotalsOnIdle s now) now

theorem settle_of_ahead (u : ℤ) (h : Inv s now)
    (hu : s.backoffUntilMs = some u) (hahead : now < u) : settle s now = s := by
  have hbusy : idle s now = false := by
    by_contra hidle
    have hpassed := passed_of_idle s now now u h (by simpa using hidle) hu
    omega
  simp only [settle, resetTotalsOnIdle, hbusy, Bool.false_eq_true, if_false, normalizeBackoff, hu,
    if_neg (not_le.mpr hahead)]

theorem inv_resetTotalsOnIdle (h : Inv s now) : Inv (resetTotalsOnIdle s now) now := by
  unfold resetTotalsOnIdle
  split
  · exact inv_start now
  · exact h

theorem inv_normalizeBackoff (h : Inv s now) :
    Inv (normalizeBackoff s now) now ∧
      ∀ u, (normalizeBackoff s now).backoffUntilMs = some u → now < u := by
  unfold normalizeBackoff
  split
  · rename_i untilMs huntil
    split
    · refine ⟨⟨h.low, h.high, h.past, ?_⟩, ?_⟩
      · intro u hu
        cases hu
      · intro u hu
        cases hu
    · rename_i hahead
      refine ⟨h, ?_⟩
      intro u hu
      rw [huntil] at hu
      obtain rfl := Option.some.inj hu
      omega
  · rename_i hnone
    refine ⟨h, ?_⟩
    intro u hu
    rw [hnone] at hu
    cases hu

/-- After the two clean-ups the invariant holds, and a deadline is ahead. -/
theorem inv_settle (h : Inv s now) :
    Inv (settle s now) now ∧ ∀ u, (settle s now).backoffUntilMs = some u → now < u :=
  inv_normalizeBackoff _ now (inv_resetTotalsOnIdle s now h)

/-- An attempt is denied exactly while a deadline is ahead, and its answer never overflows. -/
theorem evaluate_spec (h : Inv s now) :
    ∃ decision, evaluate s .terminalOsLogin now = some (decision, settle s now) ∧
      (decision.allowed = false ↔ ∃ u, (settle s now).backoffUntilMs = some u) := by
  obtain ⟨hinv, hahead⟩ := inv_settle s now h
  have hunfold : evaluate s .terminalOsLogin now =
      match (settle s now).backoffUntilMs with
      | some untilMs => do
        let left ← i64 (untilMs - now)
        let rounded ← i64 (max left 0 + 999)
        let remaining := max (rounded / 1000) 1
        let label := if remaining = 1 then "second" else "seconds"
        some (blockDecision ("Please try again in " ++ toString remaining ++ " " ++ label ++ ".")
          (some .terminalOsLoginBackoff), settle s now)
      | none => some (allowDecision, settle s now) := rfl
  cases hu : (settle s now).backoffUntilMs with
  | none =>
    rw [hunfold, hu]
    exact ⟨allowDecision, rfl, by simp [allowDecision]⟩
  | some u =>
    have hnow := hahead u hu
    obtain ⟨last, hlast, heq⟩ := hinv.deadline u hu
    have hpast := hinv.past last hlast
    have hdelay := delayMs_le (settle s now).totalFailures
    rw [hunfold, hu]
    have hleft : i64 (u - now) = some (u - now) :=
      i64_of_le _ (by rw [i64Max]; omega) (by rw [i64Max]; omega)
    have hrounded : i64 (max (u - now) 0 + 999) = some (max (u - now) 0 + 999) :=
      i64_of_le _ (by rw [i64Max]; omega) (by rw [i64Max]; omega)
    simp only [hleft, hrounded, Option.bind_eq_bind, Option.bind_some]
    exact ⟨_, rfl, by simp [blockDecision]⟩

/-- The clock counts milliseconds in 64 bits and is more than half an hour before its end. -/
def InRange (now : ℤ) : Prop := -i64Max - 1 ≤ now ∧ now + 1800000 ≤ i64Max

/-- A failure counts, up to the largest count, and puts off the next attempt accordingly. -/
theorem recordFailure_spec (h : Inv s now) (hrange : InRange now) :
    ∃ t, recordFailure s .terminalOsLogin now = some t ∧ Inv t now ∧
      t.lastFailureMs = some now ∧ (settle s now).totalFailures ≤ t.totalFailures ∧
      (2 < t.totalFailures → t.backoffUntilMs = some (now + delayMs t.totalFailures)) := by
  obtain ⟨hinv, hahead⟩ := inv_settle s now h
  have hlow := hinv.low
  have hhigh := hinv.high
  have hdelay := delayMs_le
  obtain ⟨hpos, hmax⟩ := hrange
  generalize hcount : min ((settle s now).totalFailures + 1) i32Max = n
  have hcounted : (settle s now).totalFailures ≤ n ∧ 0 ≤ n ∧ n ≤ i32Max := by
    rw [i32Max] at hcount hhigh ⊢
    omega
  obtain ⟨seconds, hseconds, hms, hzero, hbound⟩ :=
    backoffSeconds_spec n hcounted.2.1 hcounted.2.2
  have hunfold : recordFailure s .terminalOsLogin now = (backoffSeconds n).bind fun seconds =>
      if 0 < seconds then
        (i64 (seconds * 1000)).bind fun delay => (i64 (now + delay)).bind fun untilMs =>
          some ⟨n, some untilMs, some now⟩
      else some ⟨n, (settle s now).backoffUntilMs, some now⟩ := by
    rw [← hcount]
    rfl
  rw [hunfold, hseconds, Option.bind_some]
  by_cases hwait : 0 < seconds
  · have hproduct : i64 (seconds * 1000) = some (delayMs n) := by
      rw [← hms]
      exact i64_of_le _ (by rw [i64Max]; omega) (by rw [i64Max]; omega)
    have hsum : i64 (now + delayMs n) = some (now + delayMs n) := by
      have hn := hdelay n
      have hnonneg : 0 ≤ delayMs n := by omega
      exact i64_of_le _ (by omega) (by omega)
    rw [if_pos hwait, hproduct, Option.bind_some, hsum, Option.bind_some]
    refine ⟨_, rfl, ⟨hcounted.2.1, hcounted.2.2, ?_, ?_⟩, rfl, hcounted.1, fun _ => rfl⟩
    · intro last hlast
      exact (Option.some.inj hlast).ge
    · intro u hu
      exact ⟨now, rfl, (Option.some.inj hu).symm⟩
  · have hfew : n ≤ 2 := by
      by_contra hmany
      have hlong := delayMs_pos n (by omega)
      omega
    have hnone : (settle s now).backoffUntilMs = none := by
      cases hu : (settle s now).backoffUntilMs with
      | none => rfl
      | some u =>
        obtain ⟨last, hlast, heq⟩ := hinv.deadline u hu
        have hnow := hahead u hu
        have hpast := hinv.past last hlast
        have hzero : delayMs (settle s now).totalFailures = 0 := if_pos (by omega)
        omega
    rw [if_neg hwait]
    refine ⟨_, rfl, ⟨hcounted.2.1, hcounted.2.2, ?_, ?_⟩, rfl, hcounted.1, ?_⟩
    · intro last hlast
      exact (Option.some.inj hlast).ge
    · intro u hu
      rw [hnone] at hu
      cases hu
    · intro hmany
      exact absurd hfew (by simpa using hmany)

/-! ### Runs -/

/-- What a step at the time `now` keeps to. A deadline moves forward only, or is dropped once it is
past; before it an attempt is denied; and the idle reset is not due while it is ahead. -/
def Law (s : FailureState) (e : Event) (t : FailureState) : Prop :=
  (∀ u, s.backoffUntilMs = some u →
    (∃ u', t.backoffUntilMs = some u' ∧ u ≤ u') ∨ u ≤ e.now ∧ t.backoffUntilMs = none) ∧
  (∀ u, s.backoffUntilMs = some u → e.now < u → ∀ decision t',
    evaluate s .terminalOsLogin e.now = some (decision, t') → decision.allowed = false) ∧
  ∀ u, s.backoffUntilMs = some u → idle s e.now = true → u ≤ e.now

/-- A step does not overflow, keeps the invariant and keeps to the law. -/
theorem step_spec (e : Event) (clock : ℤ) (h : Inv s clock)
    (hclock : clock ≤ e.now) (hrange : InRange e.now) :
    ∃ t, step s e = some t ∧ Inv t e.now ∧ Law s e t := by
  have hnow := h.later hclock
  obtain ⟨hsettled, hahead⟩ := inv_settle s e.now hnow
  have hkept : ∀ u, s.backoffUntilMs = some u → e.now < u →
      (settle s e.now).backoffUntilMs = some u := by
    intro u hu hlater
    rw [settle_of_ahead s e.now u hnow hu hlater]
    exact hu
  have hdenied : ∀ u, s.backoffUntilMs = some u → e.now < u → ∀ decision t',
      evaluate s .terminalOsLogin e.now = some (decision, t') → decision.allowed = false := by
    intro u hu hlater decision t' heval
    obtain ⟨decision', heval', hallowed⟩ := evaluate_spec s e.now hnow
    obtain ⟨rfl, -⟩ := Prod.mk.inj (Option.some.inj (heval'.symm.trans heval))
    exact hallowed.mpr ⟨u, hkept u hu hlater⟩
  have hidle : ∀ u, s.backoffUntilMs = some u → idle s e.now = true → u ≤ e.now := by
    intro u hu hdue
    exact passed_of_idle s e.now e.now u hnow hdue hu
  have hsame : step s e = some s → ∃ t, step s e = some t ∧ Inv t e.now ∧ Law s e t := by
    intro hstep
    exact ⟨s, hstep, hnow, fun u hu => Or.inl ⟨u, hu, le_refl u⟩, hdenied, hidle⟩
  -- Nothing but the clean-ups and a failure can touch a deadline.
  have hsettle : step s e = some (settle s e.now) →
      ∃ t, step s e = some t ∧ Inv t e.now ∧ Law s e t := by
    intro hstep
    refine ⟨settle s e.now, hstep, hsettled, ?_, hdenied, hidle⟩
    intro u hu
    by_cases hlater : e.now < u
    · exact Or.inl ⟨u, hkept u hu hlater, le_refl u⟩
    · cases hleft : (settle s e.now).backoffUntilMs with
      | none => exact Or.inr ⟨by omega, rfl⟩
      | some u' =>
        have := hahead u' hleft
        exact Or.inl ⟨u', rfl, by omega⟩
  cases e with
  | succeeded scope now => exact hsame rfl
  | evaluated scope now =>
    cases scope with
    | default => exact hsame rfl
    | terminalOsLogin =>
      obtain ⟨decision, heval, -⟩ := evaluate_spec s now hnow
      exact hsettle (by
        show (evaluate s .terminalOsLogin now).map Prod.snd = _
        rw [heval]
        rfl)
  | failed scope now =>
    cases scope with
    | default => exact hsame rfl
    | terminalOsLogin =>
      obtain ⟨t, hrecord, hinv, hlast, hcount, hdeadline⟩ := recordFailure_spec s now hnow hrange
      refine ⟨t, hrecord, hinv, ?_, hdenied, hidle⟩
      intro u hu
      by_cases hlater : now < u
      · left
        obtain ⟨last, hfailed, rfl⟩ := hnow.deadline u hu
        have hpast := hnow.past last hfailed
        rw [settle_of_ahead s now _ hnow hu hlater] at hcount
        have hmono := delayMs_mono _ _ hcount
        have hmany : 2 < s.totalFailures := by
          by_contra hfew
          have hzero : delayMs s.totalFailures = 0 := if_pos (by omega)
          change last ≤ now at hpast
          omega
        refine ⟨_, hdeadline (by omega), ?_⟩
        change last ≤ now at hpast
        omega
      · cases hleft : t.backoffUntilMs with
        | none => exact Or.inr ⟨not_lt.mp hlater, rfl⟩
        | some u' =>
          obtain ⟨last, hfailed, rfl⟩ := hinv.deadline u' hleft
          rw [hlast] at hfailed
          obtain rfl := Option.some.inj hfailed
          have hnonneg : 0 ≤ delayMs t.totalFailures := by
            have hmono := delayMs_mono 0 _ hinv.low
            exact hmono
          exact Or.inl ⟨_, rfl, by omega⟩

theorem laws_from (events : List Event) (h : Inv s clock) (hclock : ∀ e ∈ events, clock ≤ e.now)
    (horder : (events.map Event.now).Pairwise (· ≤ ·)) (hrange : ∀ e ∈ events, InRange e.now) :
    Meets (fun s e => ∃ t, step s e = some t ∧ Law s e t) step s events := by
  induction events generalizing s clock with
  | nil => trivial
  | cons e rest ih =>
    obtain ⟨hfirst, hrest⟩ := List.pairwise_cons.mp horder
    have hmem : e ∈ e :: rest := List.mem_cons_self ..
    obtain ⟨t, hstep, hinv, hlaw⟩ := step_spec s e clock h (hclock e hmem) (hrange e hmem)
    refine ⟨⟨t, hstep, hlaw⟩, ?_⟩
    intro t' ht'
    obtain rfl := Option.some.inj (hstep.symm.trans ht')
    refine ih t e.now hinv ?_ hrest ?_
    · intro e' he'
      exact hfirst e'.now (List.mem_map_of_mem he')
    · intro e' he'
      exact hrange e' (List.mem_cons_of_mem _ he')

/-- With a clock that does not go back, no step of a run overflows, and every step keeps to the law:
a deadline moves forward only or is dropped once it is past, an attempt before it is denied, and the
idle reset is due only after it. -/
theorem backoff_laws (events : List Event) (horder : (events.map Event.now).Pairwise (· ≤ ·))
    (hrange : ∀ e ∈ events, InRange e.now) :
    Meets (fun s e => ∃ t, step s e = some t ∧ Law s e t) step start events := by
  cases events with
  | nil => trivial
  | cons e rest =>
    refine laws_from start e.now (e :: rest) (inv_start _) ?_ horder hrange
    intro e' he'
    rcases List.mem_cons.mp he' with rfl | hlater
    · exact le_refl _
    · exact (List.pairwise_cons.mp horder).1 e'.now (List.mem_map_of_mem hlater)

/-- Three failures, an attempt during the backoff, and one more failure after it. -/
def sampleEvents : List Event :=
  [.failed .terminalOsLogin 1767225600000, .failed .terminalOsLogin 1767225601000,
    .failed .terminalOsLogin 1767225602000, .evaluated .terminalOsLogin 1767225603000,
    .succeeded .terminalOsLogin 1767225603000, .failed .terminalOsLogin 1767225620000]

theorem backoff_laws_sample :
    Meets (fun s e => ∃ t, step s e = some t ∧ Law s e t) step start sampleEvents := by
  refine backoff_laws sampleEvents (by decide) ?_
  intro e he
  have hbounds : ∀ e ∈ sampleEvents, -i64Max - 1 ≤ e.now ∧ e.now + 1800000 ≤ i64Max := by
    decide
  exact hbounds e he

end ClantoDesk.OsCredentialBackoff
