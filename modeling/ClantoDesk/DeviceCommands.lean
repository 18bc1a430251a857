import Mathlib.Data.List.Count
import Mathlib.Data.List.Nodup
import Mathlib.Tactic.Common
import ClantoDesk.Runs
import ClantoDesk.TenantKeys

/-!
The command channel of an enrolled device, src/clanto/device_commands.rs. A delivered document
is opened, checked and executed, its result is posted, and its id is kept among the last executed
ones. The channel hands the documents to `handle` one after the other, so a history
is a list of deliveries. A delivery carries what the calls of the code answer at that time: the
enrolment, the clock, the tenant keys and what the commands find. A panic of `execute` is caught by
the channel; a panic in the report ends it.
-/
namespace ClantoDesk.DeviceCommands

open Runs TenantKeys

def REMEMBERED_IDS : ℕ := 256

/-- `Command`: `sessionId` is the text `args["session_id"]`. -/
structure Command where
  id : String
  kind : String
  sessionId : Option String
  deviceId : String
  expiresAt : Int64
  deriving DecidableEq

/-- `Outcome`: `data` is the `diagnostic_id`, the only datum a command returns. -/
structure Outcome where
  state : String
  detail : String
  data : Option String

def Outcome.new (state detail : String) : Outcome := ⟨state, detail, none⟩

/-- The delivered JSON value: its unsigned id, and the signed document when it is one. -/
structure Raw where
  id : Option String
  signed : Option Signed

/-- What the calls made for one delivery answer. -/
structure Delivery where
  raw : Raw
  enrolled : Option String
  now : Int64
  verify : Signed → Option Bytes
  apiUrl : Bool
  updateStarted : Bool
  closeSession : String → Bool
  sendDiagnostics : String → Except String String
  blockedSaved : Bool
  panics : Bool

inductive Effect
  | requestUpdate
  | requestResync
  | forceSysinfo
  | closeSession (sessionId : String)
  | sendDiagnostics (commandId : String)
  | setSessionsBlocked (blocked : Bool)

structure Posted where
  id : String
  state : String
  ts : Int64
  detail : Option String
  data : Option String

/-- `done` is the queue of `run`. The commands for which `execute` was called are noted, and the
code does not keep them. -/
structure State where
  done : List String
  posts : List Posted
  effects : List Effect
  executed : List Command
  running : Bool

def start : State := ⟨[], [], [], [], true⟩

def check (cmd : Command) (deviceId : String) (now : Int64) :
    Except (Option String × Outcome) Command :=
  if cmd.deviceId ≠ deviceId then .error (some cmd.id, Outcome.new "rejected" "device_mismatch")
  else if 0 < cmd.expiresAt ∧ cmd.expiresAt < now then
    .error (some cmd.id, Outcome.new "expired" "")
  else .ok cmd

/-- `open`: signature, receiver and expiry. `readCommand` reads the payload. -/
def openCommand (readCommand : Bytes → Option Command) (d : Delivery) (deviceId : String) :
    Except (Option String × Outcome) Command :=
  match d.raw.signed with
  | none => .error (d.raw.id, Outcome.new "rejected" "unsigned")
  | some signed =>
    match d.verify signed with
    | none => .error (d.raw.id, Outcome.new "rejected" "signature")
    | some payload =>
      match readCommand payload with
      | none => .error (d.raw.id, Outcome.new "rejected" "invalid_payload")
      | some cmd => check cmd deviceId d.now

def execute (d : Delivery) (cmd : Command) : Outcome × List Effect :=
  if cmd.kind = "update_now" then
    (if d.updateStarted then Outcome.new "done" "update check started"
      else Outcome.new "failed" "updater not available", [.requestUpdate])
  else if cmd.kind = "resync_policy" then (Outcome.new "done" "", [.requestResync])
  else if cmd.kind = "resync_sysinfo" then (Outcome.new "done" "", [.forceSysinfo])
  else if cmd.kind = "close_session" then
    let sessionId := cmd.sessionId.getD ""
    (if d.closeSession sessionId then Outcome.new "done" ""
      else Outcome.new "failed" "session not open on this device", [.closeSession sessionId])
  else if cmd.kind = "collect_logs" then
    match d.sendDiagnostics cmd.id with
    | .ok id => (⟨"done", "", some id⟩, [.sendDiagnostics cmd.id])
    | .error err => (Outcome.new "failed" err, [.sendDiagnostics cmd.id])
  else if cmd.kind = "block_sessions" ∨ cmd.kind = "unblock_sessions" then
    (if d.blockedSaved then Outcome.new "done" "" else Outcome.new "failed" "state not saved",
      [.setSessionsBlocked (cmd.kind = "block_sessions")])
  else (Outcome.new "unsupported" "", [])

/-- `String::truncate`, which panics inside a character. -/
def truncate : ℕ → List Char → Option (List Char)
  | 0, _ => some []
  | _, [] => some []
  | n, c :: cs =>
    if c.utf8Size ≤ n then (truncate (n - c.utf8Size) cs).map (c :: ·) else none

/-- `report`: a result that cannot be delivered is dropped. -/
def report (d : Delivery) (id : String) (outcome : Outcome) (s : State) : State :=
  if d.apiUrl then
    match truncate 1024 outcome.detail.toList with
    | none => { s with running := false }
    | some detail =>
      { s with posts := s.posts ++ [⟨id, outcome.state, d.now,
          if detail = [] then none else some (String.ofList detail), outcome.data⟩] }
  else s

def remember (id : String) (done : List String) : List String :=
  (done ++ [id]).drop ((done ++ [id]).length - REMEMBERED_IDS)

/-- The end of `handle`, after the command was executed. -/
def finish (d : Delivery) (cmd : Command) (outcome : Outcome) (s : State) : State :=
  if d.panics then s
  else if cmd.id = "" then s
  else
    let s := report d cmd.id outcome s
    if s.running then { s with done := remember cmd.id s.done } else s

def handle (readCommand : Bytes → Option Command) (d : Delivery) (s : State) : State :=
  match d.enrolled with
  | none => s
  | some deviceId =>
    match openCommand readCommand d deviceId with
    | .error (some id, outcome) => report d id outcome s
    | .error (none, _) => s
    | .ok cmd =>
      if cmd.id ∈ s.done then s
      else
        let s := report d cmd.id (Outcome.new "accepted" "") s
        let (outcome, effects) := execute d cmd
        finish d cmd outcome
          { s with executed := s.executed ++ [cmd], effects := s.effects ++ effects }

variable (readCommand : Bytes → Option Command)

def step (s : State) (d : Delivery) : Option State :=
  if s.running then some (handle readCommand d s) else none

def asked (d : Delivery) : Option Command :=
  d.enrolled.bind fun deviceId =>
    match openCommand readCommand d deviceId with
    | .ok cmd => some cmd
    | .error _ => none

/-- What has been delivered so far: the ids asked for, and those whose first delivery
came to its end. -/
structure Heard where
  ids : List String
  finished : List String

def hear (h : Heard) (d : Delivery) : Option Heard :=
  match asked readCommand d with
  | none => some h
  | some cmd =>
    if cmd.id ∈ h.ids then some h
    else if d.panics ∨ cmd.id = "" then some { h with ids := h.ids ++ [cmd.id] }
    else some ⟨h.ids ++ [cmd.id], h.finished ++ [cmd.id]⟩

def lastFinished (h : Heard) : List String := h.finished.drop (h.finished.length - REMEMBERED_IDS)

/-- A command asked for again is among the last 256 that came to an end. -/
def Recalled (h : Heard) (d : Delivery) : Prop :=
  ∀ cmd, asked readCommand d = some cmd → cmd.id ∈ h.ids → cmd.id ∈ lastFinished h

instance decidableRecalled (h : Heard) (d : Delivery) : Decidable (Recalled readCommand h d) :=
  inferInstanceAs (Decidable (∀ cmd ∈ asked readCommand d, cmd.id ∈ h.ids →
    cmd.id ∈ lastFinished h))

def executions (s : State) (id : String) : ℕ := (s.executed.map Command.id).count id

variable (i n : ℕ) (d : Delivery) (id : String) (outcome : Outcome) (s t : State) (h : Heard)

theorem truncate_nil : truncate n [] = some [] := by
  cases n <;> rfl

/-- A report changes the posts only, and with no detail it cannot end the channel. -/
theorem report_accepted :
    ∃ posts, report d id (Outcome.new "accepted" "") s = { s with posts := posts } := by
  unfold report
  have hdetail : (Outcome.new "accepted" "").detail.toList = [] := rfl
  by_cases hurl : d.apiUrl = true
  · rw [if_pos hurl, hdetail, truncate_nil]
    exact ⟨s.posts ++ [⟨id, "accepted", d.now, none, none⟩], by simp [Outcome.new]⟩
  · rw [if_neg hurl]
    exact ⟨s.posts, rfl⟩

theorem report_done :
    (report d id outcome s).done = s.done ∧
      (report d id outcome s).executed = s.executed := by
  unfold report
  split
  · split <;> exact ⟨rfl, rfl⟩
  · exact ⟨rfl, rfl⟩

theorem finish_executed (cmd : Command) (outcome : Outcome) (s : State) :
    (finish d cmd outcome s).executed = s.executed := by
  have hreport := (report_done d cmd.id outcome s).2
  unfold finish
  split
  · rfl
  · split
    · rfl
    · simp only
      split
      · exact hreport
      · exact hreport

/-- The queue after a command was executed, unless the report ended the channel. -/
theorem finish_done (cmd : Command) (outcome : Outcome) (s : State)
    (hrunning : (finish d cmd outcome s).running = true) :
    (finish d cmd outcome s).done =
      if d.panics ∨ cmd.id = "" then s.done else remember cmd.id s.done := by
  have hreport := (report_done d cmd.id outcome s).1
  unfold finish at hrunning ⊢
  by_cases hpanics : d.panics = true
  · rw [if_pos hpanics, if_pos (Or.inl hpanics)]
  · rw [if_neg hpanics] at hrunning ⊢
    by_cases hempty : cmd.id = ""
    · rw [if_pos hempty, if_pos (Or.inr hempty)]
    · rw [if_neg hempty] at hrunning ⊢
      rw [if_neg (not_or.mpr ⟨hpanics, hempty⟩)]
      simp only at hrunning ⊢
      by_cases halive : (report d cmd.id outcome s).running = true
      · rw [if_pos halive]
        simp only [hreport]
      · rw [if_neg halive] at hrunning
        exact absurd hrunning halive

theorem handle_cases :
    ((handle readCommand d s).executed = s.executed ∧ (handle readCommand d s).done = s.done ∧
      ∀ cmd, asked readCommand d = some cmd → cmd.id ∈ s.done) ∨
    ∃ cmd, asked readCommand d = some cmd ∧ cmd.id ∉ s.done ∧
      (handle readCommand d s).executed = s.executed ++ [cmd] ∧
      ((handle readCommand d s).running = true → (handle readCommand d s).done =
        if d.panics ∨ cmd.id = "" then s.done else remember cmd.id s.done) := by
  unfold handle asked
  cases henrolled : d.enrolled with
  | none => exact Or.inl ⟨rfl, rfl, by simp⟩
  | some deviceId =>
    simp only [Option.bind_some]
    cases hopen : openCommand readCommand d deviceId with
    | error e =>
      left
      rcases e with ⟨id | id, outcome⟩
      · exact ⟨rfl, rfl, by simp⟩
      · exact ⟨(report_done d id outcome s).2, (report_done d id outcome s).1, by simp⟩
    | ok cmd =>
      by_cases hdone : cmd.id ∈ s.done
      · left
        simp only [if_pos hdone]
        exact ⟨trivial, trivial, by rintro _ ⟨rfl⟩; exact hdone⟩
      · right
        obtain ⟨posts, hposts⟩ := report_accepted d cmd.id s
        simp only [if_neg hdone, hposts]
        refine ⟨cmd, rfl, hdone, finish_executed d cmd _ _, ?_⟩
        intro hrunning
        exact finish_done d cmd _ _ hrunning

/-- Appending to the last `n` elements of a list and keeping `n` of them again. -/
theorem window_append {α : Type*} (n : ℕ) (hn : 0 < n) (l : List α) (x : α) :
    (l.drop (l.length - n) ++ [x]).drop ((l.drop (l.length - n) ++ [x]).length - n) =
      (l ++ [x]).drop ((l ++ [x]).length - n) := by
  have hleft : (l.drop (l.length - n) ++ [x]).length - n ≤ (l.drop (l.length - n)).length := by
    simp only [List.length_append, List.length_singleton]
    omega
  have hright : (l ++ [x]).length - n ≤ l.length := by
    simp only [List.length_append, List.length_singleton]
    omega
  rw [List.drop_append_of_le_length hleft, List.drop_append_of_le_length hright, List.drop_drop]
  congr 2
  simp only [List.length_append, List.length_drop, List.length_singleton]
  omega

theorem remember_lastFinished (ids finished : List String) (id : String) :
    remember id (lastFinished ⟨ids, finished⟩) = lastFinished ⟨ids ++ [id], finished ++ [id]⟩ :=
  window_append REMEMBERED_IDS (by decide) finished id

/-- The queue holds the last finished ids, and each id asked for was executed once. -/
structure Inv (s : State) (h : Heard) : Prop where
  queue : s.running = true → s.done = lastFinished h
  executed : s.executed.map Command.id = h.ids
  once : h.ids.Nodup
  finished : ∀ id ∈ h.finished, id ∈ h.ids

theorem inv_start : Inv start ⟨[], []⟩ :=
  ⟨fun _ => rfl, rfl, List.nodup_nil, by simp⟩

theorem mem_of_mem_lastFinished (id : String) (hid : id ∈ lastFinished h) :
    id ∈ h.finished := List.mem_of_mem_drop hid

/-- While repeated commands are recalled, the queue follows the deliveries. -/
theorem inv_handle (d : Delivery) (hinv : Inv s h)
    (hrunning : s.running = true) (hrecalled : Recalled readCommand h d) :
    ∃ h', hear readCommand h d = some h' ∧ Inv (handle readCommand d s) h' := by
  have hqueue := hinv.queue hrunning
  rcases handle_cases readCommand d s with ⟨hexecuted, hdone, hasked⟩ |
    ⟨cmd, hasked, hnew, hexecuted, hdone⟩
  · have hhear : hear readCommand h d = some h := by
      unfold hear
      cases hcmd : asked readCommand d with
      | none => rfl
      | some cmd =>
        have hmem := hasked cmd hcmd
        rw [hqueue] at hmem
        exact if_pos (hinv.finished _ (mem_of_mem_lastFinished h _ hmem))
    refine ⟨h, hhear, ⟨fun _ => hdone.trans hqueue, ?_, hinv.once, hinv.finished⟩⟩
    rw [hexecuted]
    exact hinv.executed
  · have hfresh : cmd.id ∉ h.ids := by
      intro hid
      exact hnew (hqueue ▸ hrecalled cmd hasked hid)
    have honce : (h.ids ++ [cmd.id]).Nodup := by
      rw [List.nodup_append]
      refine ⟨hinv.once, List.nodup_singleton _, ?_⟩
      intro a ha b hb hab
      rw [List.mem_singleton.mp hb] at hab
      exact hfresh (hab ▸ ha)
    have hids : (handle readCommand d s).executed.map Command.id = h.ids ++ [cmd.id] := by
      rw [hexecuted, List.map_append, hinv.executed, List.map_cons, List.map_nil]
    unfold hear
    rw [hasked]
    simp only [if_neg hfresh]
    by_cases hlost : d.panics ∨ cmd.id = ""
    · rw [if_pos hlost] at hdone ⊢
      refine ⟨_, rfl, ⟨fun halive => (hdone halive).trans hqueue, hids, honce, ?_⟩⟩
      intro id hid
      exact List.mem_append_left _ (hinv.finished id hid)
    · rw [if_neg hlost] at hdone ⊢
      refine ⟨_, rfl, ⟨?_, hids, honce, ?_⟩⟩
      · intro halive
        rw [hdone halive, hqueue]
        exact remember_lastFinished h.ids h.finished cmd.id
      · intro id hid
        rcases List.mem_append.mp hid with hold | hlast
        · exact List.mem_append_left _ (hinv.finished id hold)
        · exact List.mem_append_right _ hlast

theorem executions_mono (d : Delivery) (hstep : step readCommand s d = some t)
    (id : String) : executions s id ≤ executions t id := by
  unfold step at hstep
  by_cases hrunning : s.running = true
  · rw [if_pos hrunning] at hstep
    have ht := Option.some.inj hstep
    unfold executions
    rcases handle_cases readCommand d s with ⟨hexecuted, -, -⟩ | ⟨cmd, -, -, hexecuted, -⟩
    · exact (ht ▸ hexecuted) ▸ Nat.le_refl _
    · rw [← ht, hexecuted, List.map_append, List.count_append]
      omega
  · rw [if_neg hrunning] at hstep
    cases hstep

theorem executions_mono_exec (es : List Delivery)
    (hexec : exec (step readCommand) s es = some t) (id : String) :
    executions s id ≤ executions t id := by
  induction es generalizing s with
  | nil =>
    have heq : s = t := by simpa using hexec
    exact heq ▸ Nat.le_refl _
  | cons d es ih =>
    obtain ⟨u, hu, hrest⟩ := (exec_cons _ s t d es).mp hexec
    exact Nat.le_trans (executions_mono readCommand s u d hu id) (ih u hrest)

theorem executed_again (d : Delivery) (hinv : Inv s h)
    (hrunning : s.running = true) (hforgotten : ¬Recalled readCommand h d) :
    ∃ id, 2 ≤ executions (handle readCommand d s) id := by
  unfold Recalled at hforgotten
  push Not at hforgotten
  obtain ⟨cmd, hcmd, hheard, hgone⟩ := hforgotten
  refine ⟨cmd.id, ?_⟩
  rcases handle_cases readCommand d s with ⟨-, -, hasked⟩ | ⟨other, hasked, -, hexecuted, -⟩
  · rw [hinv.queue hrunning] at hasked
    exact absurd (hasked cmd hcmd) hgone
  · have hsame : other = cmd := Option.some.inj (hasked.symm.trans hcmd)
    have hbefore : 0 < h.ids.count cmd.id := List.count_pos_iff.mpr hheard
    unfold executions
    rw [hexecuted, hsame, List.map_append, hinv.executed, List.count_append, List.map_cons,
      List.map_nil, List.count_singleton_self]
    omega

theorem executed_once_from (es : List Delivery) (hinv : Inv s h)
    (hexec : exec (step readCommand) s es = some t) :
    (∀ id, executions t id ≤ 1) ↔
      Meets (Recalled readCommand) (hear readCommand) h es := by
  induction es generalizing s h with
  | nil =>
    have heq : s = t := by simpa using hexec
    subst heq
    refine ⟨fun _ => trivial, fun _ id => ?_⟩
    unfold executions
    rw [hinv.executed]
    exact List.nodup_iff_count_le_one.mp hinv.once id
  | cons d es ih =>
    obtain ⟨u, hu, hrest⟩ := (exec_cons _ s t d es).mp hexec
    have hrunning : s.running = true := by
      by_contra hstopped
      simp [step, hstopped] at hu
    have hhandle : handle readCommand d s = u := by
      simpa only [step, if_pos hrunning, Option.some.injEq] using hu
    by_cases hrecalled : Recalled readCommand h d
    · obtain ⟨h', hhear, hinv'⟩ := inv_handle readCommand s h d hinv hrunning hrecalled
      rw [hhandle] at hinv'
      rw [meets_cons_of_some _ _ h h' d es hhear, ih u h' hinv' hrest]
      exact ⟨fun hmore => ⟨hrecalled, hmore⟩, fun hmore => hmore.2⟩
    · obtain ⟨id, htwice⟩ := executed_again readCommand s h d hinv hrunning hrecalled
      rw [hhandle] at htwice
      have hlater := executions_mono_exec readCommand u t es hrest id
      constructor
      · intro honce
        have := honce id
        omega
      · intro hmeets
        exact absurd hmeets.1 hrecalled

/-- Each id is executed at most once exactly when every command that is asked for again
is among the last 256 whose first delivery came to its end. -/
theorem executed_once (t : State) (es : List Delivery)
    (hexec : exec (step readCommand) start es = some t) :
    (∀ id, executions t id ≤ 1) ↔
      Meets (Recalled readCommand) (hear readCommand) ⟨[], []⟩ es :=
  executed_once_from readCommand start t ⟨[], []⟩ es inv_start hexec

theorem report_of_offline (hurl : d.apiUrl = false) : report d id outcome s = s := by
  unfold report
  rw [hurl]
  rfl

/-- Without the address of the server nothing is posted, and the channel goes on. -/
theorem handle_running (hurl : d.apiUrl = false) :
    (handle readCommand d s).running = s.running := by
  unfold handle finish
  simp only [report_of_offline _ _ _ _ hurl]
  repeat' split
  all_goals rfl

/-- A signed `resync_policy` command with a payload of `i` bytes. -/
def resync (i : ℕ) : Delivery where
  raw := ⟨none, some ⟨"", ""⟩⟩
  enrolled := some "d1"
  now := 0
  verify := fun _ => some (List.replicate i 0)
  apiUrl := false
  updateStarted := false
  closeSession := fun _ => false
  sendDiagnostics := fun _ => .error ""
  blockedSaved := false
  panics := false

def resyncId (i : ℕ) : String := String.ofList (List.replicate (i + 1) 'c')

def readResync (payload : Bytes) : Option Command :=
  some ⟨resyncId payload.length, "resync_policy", none, "d1", 0⟩

theorem executed_once_resync :
    ∃ t, exec (step readResync) start [resync 0, resync 1, resync 0] = some t ∧
      ∀ id, executions t id ≤ 1 := by
  refine ⟨_, rfl, ?_⟩
  exact (executed_once readResync _ [resync 0, resync 1, resync 0] rfl).mpr (by decide)

theorem resyncId_inj (j : ℕ) (h : resyncId i = resyncId j) : i = j := by
  have hlist : List.replicate (i + 1) 'c' = List.replicate (j + 1) 'c' := String.ofList_injective h
  have hlength := congrArg List.length hlist
  rw [List.length_replicate, List.length_replicate] at hlength
  omega

theorem resyncId_ne_empty : resyncId i ≠ "" := by
  intro hempty
  have hlist := congrArg String.toList hempty
  simp [resyncId, List.replicate_succ] at hlist

theorem asked_resync :
    asked readResync (resync i) = some ⟨resyncId i, "resync_policy", none, "d1", 0⟩ := by
  have hcheck : check ⟨resyncId i, "resync_policy", none, "d1", 0⟩ "d1" 0 =
      .ok ⟨resyncId i, "resync_policy", none, "d1", 0⟩ := rfl
  simp only [asked, resync, openCommand, readResync, Option.bind_some, List.length_replicate,
    hcheck]

/-- The ids of the first `n` commands. -/
def resyncIds (n : ℕ) : List String := (List.range n).map resyncId

theorem not_mem_resyncIds : resyncId n ∉ resyncIds n := by
  intro hmem
  obtain ⟨i, hi, hsame⟩ := List.mem_map.mp hmem
  have heq := resyncId_inj i n hsame
  rw [List.mem_range] at hi
  omega

theorem hear_resync :
    hear readResync ⟨resyncIds n, resyncIds n⟩ (resync n) =
      some ⟨resyncIds (n + 1), resyncIds (n + 1)⟩ := by
  have hlost : ¬((resync n).panics = true ∨ resyncId n = "") :=
    not_or.mpr ⟨Bool.false_ne_true, resyncId_ne_empty n⟩
  have hids : resyncIds (n + 1) = resyncIds n ++ [resyncId n] := by
    rw [resyncIds, List.range_succ, List.map_append]
    rfl
  unfold hear
  simp only [asked_resync, if_neg (not_mem_resyncIds n), if_neg hlost, hids]

/-- The first `n` commands are all new. -/
theorem exec_resyncs :
    ∃ s, exec (step readResync) start ((List.range n).map resync) = some s ∧
      s.running = true ∧ Inv s ⟨resyncIds n, resyncIds n⟩ := by
  induction n with
  | zero => exact ⟨start, rfl, rfl, inv_start⟩
  | succ n ih =>
    obtain ⟨s, hs, hrunning, hinv⟩ := ih
    have hrecalled : Recalled readResync ⟨resyncIds n, resyncIds n⟩ (resync n) := by
      intro cmd hcmd hmem
      rw [asked_resync] at hcmd
      rw [← Option.some.inj hcmd] at hmem
      exact absurd hmem (not_mem_resyncIds n)
    obtain ⟨h', hhear, hinv'⟩ := inv_handle readResync s _ (resync n) hinv hrunning hrecalled
    rw [hear_resync] at hhear
    rw [← Option.some.inj hhear] at hinv'
    refine ⟨handle readResync (resync n) s, ?_, ?_, hinv'⟩
    · rw [List.range_succ, List.map_append, exec_append]
      refine ⟨s, hs, ?_⟩
      simp only [List.map_cons, List.map_nil, exec, step, if_pos hrunning, Option.bind_some]
    · rw [handle_running readResync (resync n) s rfl]
      exact hrunning

/-- A command is delivered again after 256 others, and is executed a second time. -/
theorem forgotten_command_executed_twice :
    ∃ t, exec (step readResync) start ((List.range 257).map resync ++ [resync 0]) = some t ∧
      ∃ id, 2 ≤ executions t id := by
  obtain ⟨s, hs, hrunning, hinv⟩ := exec_resyncs 257
  have hforgotten : ¬Recalled readResync ⟨resyncIds 257, resyncIds 257⟩ (resync 0) := by
    intro hrecalled
    have hmem := hrecalled _ (asked_resync 0)
      (List.mem_map_of_mem (List.mem_range.mpr (by omega)))
    have hlast : lastFinished ⟨resyncIds 257, resyncIds 257⟩ =
        ((List.range 257).drop 1).map resyncId := by
      simp only [lastFinished, resyncIds, List.map_drop, List.length_map, List.length_range,
        REMEMBERED_IDS]
    rw [hlast] at hmem
    obtain ⟨i, hi, hsame⟩ := List.mem_map.mp hmem
    rw [resyncId_inj i 0 hsame] at hi
    exact absurd hi (by decide)
  refine ⟨handle readResync (resync 0) s, ?_, ?_⟩
  · rw [exec_append]
    refine ⟨s, hs, ?_⟩
    simp only [exec, step, if_pos hrunning, Option.bind_some]
  · exact executed_again readResync s _ (resync 0) hinv hrunning hforgotten

end ClantoDesk.DeviceCommands
