import ClantoDesk.Runs
import Mathlib.Logic.Function.Basic

/-!
The table of forwarding sessions on the controller, `session` and `close` of
src/clanto/forwarding/controller.rs. Calls run in different tasks. A call of `session` looks at
the closed keys under one lock and creates the state under another, and a call of `close` takes the
same locks one after the other, so that each of these parts of a call is one event. A state stands
here for its engine; the webcam and the forwards in it are left out.
-/
namespace ClantoDesk.SessionTable

abbrev Key := UInt64

/-- Where a call is. The first four are of `session`: before the closed keys are looked at,
before the state is created, at the end with an engine, and at the end without one. The others
are of `close`: before the key is marked, before its receiver is closed, before its state is
removed, with what was removed, and at the end. -/
inductive Call
  | checking (key : Key)
  | creating (key : Key)
  | opened (key : Key) (engine : ℕ)
  | refused (key : Key)
  | marking (key : Key)
  | receiving (key : Key)
  | removing (key : Key)
  | draining (key : Key) (engine : Option ℕ)
  | closed (key : Key)
  deriving DecidableEq

/-- `SESSIONS` and `CLOSED`, with the number of the next engine, the engines whose channels and
listeners were closed, and the calls. -/
structure State where
  sessions : Key → Option ℕ
  closed : List Key
  nextEngine : ℕ
  ended : List ℕ
  calls : List Call

def start : State := ⟨fun _ => none, [], 0, [], []⟩

inductive Event
  | session (key : Key)
  | close (key : Key)
  | resume (id : ℕ)

def State.setCall (s : State) (id : ℕ) (call : Call) : State :=
    { s with calls := s.calls.set id call }

def resume (s : State) (id : ℕ) : Call → Option State
  | .checking key => some (s.setCall id (if key ∈ s.closed then .refused key else .creating key))
  | .creating key =>
    match s.sessions key with
    | some engine => some (s.setCall id (.opened key engine))
    | none =>
      some ({ s with
        sessions := Function.update s.sessions key (some s.nextEngine)
        nextEngine := s.nextEngine + 1 }.setCall id (.opened key s.nextEngine))
  | .marking key => some ({ s with closed := key :: s.closed }.setCall id (.receiving key))
  | .receiving key => some (s.setCall id (.removing key))
  | .removing key =>
    some ({ s with sessions := Function.update s.sessions key none }.setCall id
      (.draining key (s.sessions key)))
  | .draining key engine =>
    some ({ s with ended := s.ended ++ engine.toList }.setCall id (.closed key))
  | .opened _ _ => none
  | .refused _ => none
  | .closed _ => none

def step (s : State) : Event → Option State
  | .session key => some { s with calls := s.calls ++ [.checking key] }
  | .close key => some { s with calls := s.calls ++ [.marking key] }
  | .resume id => s.calls[id]?.bind (resume s id)

/-- No key of a close that has returned has a state. -/
def Clean (s : State) : Prop := ∀ key, .closed key ∈ s.calls → s.sessions key = none

/-- No call that looked at the closed keys before is still to create the state when it is
removed. -/
def Guarded (s : State) : Event → Prop
  | .resume id =>
    match s.calls[id]? with
    | some (.removing key) => .creating key ∉ s.calls
    | _ => True
  | _ => True

instance decidableGuarded (s : State) (event : Event) : Decidable (Guarded s event) := by
  unfold Guarded
  split
  · split <;> infer_instance
  · infer_instance

def Call.Marked (key : Key) : Call → Prop
  | .receiving k | .removing k | .draining k _ | .closed k => k = key
  | _ => False

def Call.Removed (key : Key) : Call → Prop
  | .draining k _ | .closed k => k = key
  | _ => False

theorem Call.Removed.marked {key : Key} {call : Call} (h : call.Removed key) : call.Marked key := by
  cases call with
  | draining k engine => exact h
  | closed k => exact h
  | _ => exact h.elim

/-- Marked keys are in the set, and after the removal there is no state and nobody to create it. -/
structure Inv (s : State) : Prop where
  marked : ∀ call ∈ s.calls, ∀ key, call.Marked key → key ∈ s.closed
  removed : ∀ call ∈ s.calls, ∀ key, call.Removed key →
    s.sessions key = none ∧ .creating key ∉ s.calls

theorem Inv.withCalls {s : State} (h : Inv s) (calls : List Call) (call : Call)
    (hcalls : ∀ c ∈ calls, c ∈ s.calls ∨ c = call)
    (hmarked : ∀ key, call.Marked key → key ∈ s.closed)
    (hremoved : ∀ key, call.Removed key → s.sessions key = none ∧ .creating key ∉ s.calls)
    (hcreating : ∀ key, call = .creating key → key ∉ s.closed) : Inv { s with calls := calls } := by
  have hquiet : ∀ key ∈ s.closed, .creating key ∉ s.calls → .creating key ∉ calls := by
    intro key hclosed hnone hmem
    rcases hcalls _ hmem with hold | heq
    · exact hnone hold
    · exact hcreating key heq.symm hclosed
  refine ⟨?_, ?_⟩
  · intro c hc key hkey
    rcases hcalls c hc with hold | rfl
    · exact h.marked c hold key hkey
    · exact hmarked key hkey
  · intro c hc key hkey
    rcases hcalls c hc with hold | rfl
    · obtain ⟨hnone, hcreate⟩ := h.removed c hold key hkey
      exact ⟨hnone, hquiet key (h.marked c hold key hkey.marked) hcreate⟩
    · obtain ⟨hnone, hcreate⟩ := hremoved key hkey
      exact ⟨hnone, hquiet key (hmarked key hkey.marked) hcreate⟩

theorem Inv.setCall {s : State} (h : Inv s) (id : ℕ) (call : Call)
    (hmarked : ∀ key, call.Marked key → key ∈ s.closed)
    (hremoved : ∀ key, call.Removed key → s.sessions key = none ∧ .creating key ∉ s.calls)
    (hcreating : ∀ key, call = .creating key → key ∉ s.closed) : Inv (s.setCall id call) :=
  h.withCalls _ call (fun _ hc => List.mem_or_eq_of_mem_set hc) hmarked hremoved hcreating

theorem Inv.addCall {s : State} (h : Inv s) (call : Call) (hmarked : ∀ key, ¬ call.Marked key)
    (hcreating : ∀ key, call ≠ .creating key) : Inv { s with calls := s.calls ++ [call] } :=
  h.withCalls _ call (fun _ hc => by simpa using hc) (fun key hkey => absurd hkey (hmarked key))
    (fun key hkey => absurd hkey.marked (hmarked key)) (fun key heq => absurd heq (hcreating key))

theorem inv_resume {s t : State} (h : Inv s) (id : ℕ) (call : Call) (hcall : call ∈ s.calls)
    (hguard : ∀ key, call = .removing key → .creating key ∉ s.calls)
    (hstep : resume s id call = some t) : Inv t := by
  cases call with
  | checking key =>
    obtain rfl := Option.some.inj hstep
    by_cases hclosed : key ∈ s.closed
    · rw [if_pos hclosed]
      exact h.setCall id _ (fun k hk => hk.elim) (fun k hk => hk.elim) (fun k heq => by cases heq)
    · rw [if_neg hclosed]
      refine h.setCall id _ (fun k hk => hk.elim) (fun k hk => hk.elim) ?_
      intro k heq
      obtain rfl := Call.creating.inj heq
      exact hclosed
  | creating key =>
    unfold resume at hstep
    simp only at hstep
    split at hstep
    · obtain rfl := Option.some.inj hstep
      exact h.setCall id _ (fun k hk => hk.elim) (fun k hk => hk.elim) (fun k heq => by cases heq)
    · obtain rfl := Option.some.inj hstep
      have hcreated : Inv { s with
          sessions := Function.update s.sessions key (some s.nextEngine)
          nextEngine := s.nextEngine + 1 } := by
        refine ⟨h.marked, fun c hc k hk => ?_⟩
        obtain ⟨hnone, hcreate⟩ := h.removed c hc k hk
        -- a key of which a call still creates the state was not removed
        have hne : k ≠ key := by
          rintro rfl
          exact hcreate hcall
        exact ⟨(Function.update_of_ne hne _ _).trans hnone, hcreate⟩
      exact hcreated.setCall id _ (fun k hk => hk.elim) (fun k hk => hk.elim)
        (fun k heq => by cases heq)
  | marking key =>
    obtain rfl := Option.some.inj hstep
    have hadded : Inv { s with closed := key :: s.closed } :=
      ⟨fun c hc k hk => List.mem_cons_of_mem _ (h.marked c hc k hk), h.removed⟩
    refine hadded.setCall id _ ?_ (fun k hk => hk.elim) (fun k heq => by cases heq)
    rintro k rfl
    exact List.mem_cons_self
  | receiving key =>
    obtain rfl := Option.some.inj hstep
    exact h.setCall id _ (fun k hk => h.marked _ hcall k hk) (fun k hk => hk.elim)
      (fun k heq => by cases heq)
  | removing key =>
    obtain rfl := Option.some.inj hstep
    have hremoved : Inv { s with sessions := Function.update s.sessions key none } := by
      refine ⟨h.marked, fun c hc k hk => ?_⟩
      obtain ⟨hnone, hcreate⟩ := h.removed c hc k hk
      refine ⟨?_, hcreate⟩
      simp only [Function.update_apply]
      split
      · rfl
      · exact hnone
    refine hremoved.setCall id _ (fun k hk => h.marked _ hcall k hk) ?_ (fun k heq => by cases heq)
    rintro k rfl
    exact ⟨Function.update_self .., hguard _ rfl⟩
  | draining key engine =>
    obtain rfl := Option.some.inj hstep
    have hended : Inv { s with ended := s.ended ++ engine.toList } := ⟨h.marked, h.removed⟩
    exact hended.setCall id _ (fun k hk => h.marked _ hcall k hk)
      (fun k hk => h.removed _ hcall k hk)
      (fun k heq => by cases heq)
  | opened key engine => cases hstep
  | refused key => cases hstep
  | closed key => cases hstep

theorem inv_step (s : State) (event : Event) (t : State) (hguard : Guarded s event) (h : Inv s)
    (hstep : step s event = some t) : Inv t := by
  cases event with
  | session key =>
    obtain rfl := Option.some.inj hstep
    exact h.addCall _ (fun k hk => hk.elim) (fun k heq => by cases heq)
  | close key =>
    obtain rfl := Option.some.inj hstep
    exact h.addCall _ (fun k hk => hk.elim) (fun k heq => by cases heq)
  | resume id =>
    obtain ⟨call, hcall, hresume⟩ := Option.bind_eq_some_iff.mp hstep
    refine inv_resume h id call (List.mem_of_getElem? hcall) ?_ hresume
    rintro key rfl
    unfold Guarded at hguard
    simp only [hcall] at hguard
    exact hguard

/-- In a run in which no state is removed while a call is still to create it, a key whose close has
returned has no state. -/
theorem closed_without_state (events : List Event) (s : State)
    (hmeets : Runs.Meets Guarded step start events) (hexec : Runs.exec step start events = some s) :
    Clean s := by
  have hstart : Inv start := by
    refine ⟨?_, ?_⟩
    all_goals
      intro call hcall
      cases hcall
  have hinv := Runs.invariant_of_meets Guarded step Inv inv_step start s events hstart hmeets hexec
  exact fun key hclosed => (hinv.removed _ hclosed key rfl).1

def sampleRun : List Event :=
  [.session 7, .resume 0, .resume 0, .close 7, .resume 1, .resume 1, .resume 1, .resume 1]

theorem closed_without_state_sample :
    (Runs.exec step start sampleRun).map (fun s => (s.calls, s.sessions 7, s.ended)) =
        some ([.opened 7 0, .closed 7], none, [0]) ∧
      ∀ s, Runs.exec step start sampleRun = some s → Clean s :=
  ⟨by decide, fun s hexec => closed_without_state sampleRun s (by decide) hexec⟩

/-- The state is removed while a call that found the key open is still to create it. -/
def raceRun : List Event :=
  [.session 7, .resume 0, .close 7, .resume 1, .resume 1, .resume 1, .resume 0, .resume 1]

/-- A state stays in the table after the close has returned, and no call goes on. -/
theorem closed_with_state :
    ∃ s, Runs.exec step start raceRun = some s ∧ s.calls = [.opened 7 0, .closed 7] ∧
      s.sessions 7 = some 0 ∧ ¬ Clean s := by
  refine ⟨_, rfl, by decide, by decide, ?_⟩
  intro hclean
  have hnone := hclean 7 (by decide)
  revert hnone
  decide

end ClantoDesk.SessionTable
